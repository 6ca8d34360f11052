import VirtualMachine.Cpu.Instruction
import VirtualMachine.Isa.Effect
import VirtualMachine.Memory.Layout

namespace VirtualMachine

/-- What an instruction of a process can and cannot do to its context. -/
structure InstructionFrame (before after : ExecutionContext) : Prop where
  id : after.process.id = before.process.id
  layout : after.process.layout = before.process.layout
  state : after.process.state = before.process.state ∨
    after.process.state = .Halted ∧ after.process.context.halted = true
  halted : before.process.context.halted = true → after.process.context.halted = true
  size : after.physical.size = before.physical.size
  nextFree : after.physical.nextFreeAddress = before.physical.nextFreeAddress
  memory : before.process.layout.Packed → ∀ k, ¬ before.process.layout.dataSegment.Contains k →
    ¬ before.process.layout.stackSegment.Contains k → after.physical.memory k = before.physical.memory k
  output : ∃ printed : List Word,
    after.output = before.output ++ printed.map (fun value => (before.process.id, value))

namespace InstructionFrame

variable {before middle after : ExecutionContext}

/-- What an instruction does is put together of steps that stay within the frame. -/
theorem trans (first : InstructionFrame before middle) (last : InstructionFrame middle after) :
    InstructionFrame before after where
  id := last.id.trans first.id
  layout := last.layout.trans first.layout
  state := by
    rcases last.state with same | halted
    · rcases first.state with kept | halted
      · exact Or.inl (same.trans kept)
      · exact Or.inr ⟨same.trans halted.1, last.halted halted.2⟩
    · exact Or.inr halted
  halted was := last.halted (first.halted was)
  size := last.size.trans first.size
  nextFree := last.nextFree.trans first.nextFree
  memory packed k noData noStack := by
    have kept := last.memory
    rw [first.layout] at kept
    exact (kept packed k noData noStack).trans (first.memory packed k noData noStack)
  output := by
    obtain ⟨one, printed⟩ := first.output
    obtain ⟨two, more⟩ := last.output
    exact ⟨one ++ two, by rw [more, printed, first.id, List.map_append, List.append_assoc]⟩

/-- A change of the process that keeps its identity and its flags. -/
theorem of_process {process : ProcessControlBlock} (id : process.id = before.process.id)
    (layout : process.layout = before.process.layout) (state : process.state = before.process.state)
    (halted : before.process.context.halted = true → process.context.halted = true) :
    InstructionFrame before { before with process := process } where
  id := id
  layout := layout
  state := Or.inl state
  halted := halted
  size := rfl
  nextFree := rfl
  memory _ _ _ _ := rfl
  output := ⟨[], by simp⟩

theorem refl (ctx : ExecutionContext) : InstructionFrame ctx ctx :=
  of_process rfl rfl rfl (fun was => was)

/-- The registers of a process are its own. -/
theorem of_registers (registers : RegisterFile) : InstructionFrame before (before.withRegisters registers) :=
  of_process rfl rfl rfl (fun was => was)

theorem of_useTimeSlice (ctx : ExecutionContext) : InstructionFrame ctx ctx.useTimeSlice :=
  of_process rfl rfl rfl (fun was => was)

/-- A word written into the data or the stack segment. -/
theorem of_putWord {address : Address} {value : Word}
    (inside : before.process.layout.Packed → ∀ k, address.toNat ≤ k → k < address.toNat + 4 →
      before.process.layout.dataSegment.Contains k ∨ before.process.layout.stackSegment.Contains k) :
    InstructionFrame before (before.withPhysical (before.physical.putWord address value)) where
  id := rfl
  layout := rfl
  state := Or.inl rfl
  halted was := was
  size := rfl
  nextFree := rfl
  memory packed k noData noStack := by
    apply PhysicalMemory.memory_putWord_outside
    by_contra within
    rcases inside packed k (by omega) (by omega) with data | stack
    · exact noData data
    · exact noStack stack
  output := ⟨[], by simp [ExecutionContext.withPhysical]⟩

end InstructionFrame

/-- The bytes of a word that passes the check of the data segment. -/
theorem dataAccess_contains {ctx : ExecutionContext} {offset : Address} (access : ctx.memory.DataAccess offset)
    (packed : ctx.process.layout.Packed) {k : Nat} (low : (ctx.process.layout.dataAddress + offset).toNat ≤ k)
    (high : k < (ctx.process.layout.dataAddress + offset).toNat + 4) : ctx.process.layout.dataSegment.Contains k := by
  have bound := access.1
  have address := packed.dataOffsetAddress (Nat.le_trans (Nat.le_add_right _ _) bound)
  have data := packed.data
  simp only [Segment.Contains, Segment.finish, MemoryRegionLayout.dataSegment, ExecutionContext.memory] at *
  omega

/-- The bytes of the word that a push writes. -/
theorem canPush_contains {ctx : ExecutionContext} {sp : Address} (room : ctx.memory.canPush sp = true)
    (packed : ctx.process.layout.Packed) {k : Nat} (low : (sp - 4).toNat ≤ k) (high : k < (sp - 4).toNat + 4) :
    ctx.process.layout.stackSegment.Contains k := by
  obtain ⟨above, below⟩ := ProcessMemory.canPush_iff.mp room
  have lower : (sp - 4).toNat = sp.toNat - 4 := ProcessMemory.toNat_sub_four (by omega)
  have address := packed.stackAddress
  have stack := packed.stack
  simp only [Segment.Contains, Segment.finish, MemoryRegionLayout.stackSegment, ExecutionContext.memory] at *
  omega

namespace Effect

/-- A store stays in the data and the stack segment. -/
def Confined (ctx : ExecutionContext) : Effect → Prop
  | store address _ _ => ctx.process.layout.Packed → ∀ k, address.toNat ≤ k → k < address.toNat + 4 →
      ctx.process.layout.dataSegment.Contains k ∨ ctx.process.layout.stackSegment.Contains k
  | _ => True

/-- An effect that stores at most into data or stack stays within the frame. -/
theorem Confined.frame {ctx : ExecutionContext} {effect : Effect} (confined : effect.Confined ctx) :
    InstructionFrame ctx (effect.apply ctx).2 := by
  cases effect with
  | registers after result => exact .of_registers after
  | store address value after => exact (InstructionFrame.of_putWord confined).trans (.of_registers after)
  | halt => exact .of_process rfl rfl rfl (fun _ => rfl)
  | fail message sp => exact .of_process rfl rfl rfl (fun was => was)
  | throw e => exact .refl ctx

end Effect

theorem ExecutionContext.storeEffect_confined (ctx : ExecutionContext) (instruction : DecodedInstruction) :
    (ctx.storeEffect instruction).Confined ctx := by
  unfold storeEffect
  by_cases access : ctx.memory.DataAccess (instruction.imm.signExtend 32)
  · simp only [ProcessMemory.writeDataWord_ok _ access]
    exact fun packed k low high => Or.inl (dataAccess_contains access packed low high)
  · obtain ⟨message, refused⟩ := ProcessMemory.writeDataWord_error (ctx.registers.get instruction.rd) access
    simp only [refused]
    trivial

theorem ExecutionContext.pushEffect_confined (ctx : ExecutionContext) (value : Word) :
    (ctx.pushEffect value).Confined ctx := by
  unfold pushEffect
  dsimp only
  split
  · rename_i room
    split
    · exact fun packed k low high => Or.inr (canPush_contains room packed low high)
    · trivial
  · trivial

/-- No instruction of the set does anything else: of its stores, `store` is checked
against the data segment and `push` against the stack. -/
theorem effect_confined (instruction : DecodedInstruction) (ctx : ExecutionContext) :
    (effect instruction ctx).Confined ctx := by
  unfold effect
  cases Opcode.ofByte? instruction.opcode with
  | none => trivial
  | some opcode =>
    cases opcode
    case STORE => exact ctx.storeEffect_confined instruction
    case PUSH => exact ctx.pushEffect_confined _
    case LOAD =>
      simp only [ExecutionContext.loadEffect]
      split <;> trivial
    case POP =>
      simp only [ExecutionContext.popEffect]
      repeat' split
      all_goals trivial
    case RET =>
      simp only [ExecutionContext.popEffect]
      repeat' split
      all_goals trivial
    all_goals first | trivial | (dsimp only; split <;> trivial)

namespace SyscallHandler

/-- The system calls write a word of data at most. -/
theorem handle_frame (id : Option SyscallId) (argAddress : Word) (ctx : ExecutionContext) :
    InstructionFrame ctx (handle id argAddress ctx).2 := by
  unfold handle
  split
  · cases ctx.memory.readDataWord argAddress with
    | error e => exact .refl ctx
    | ok value => exact { InstructionFrame.refl ctx with output := ⟨[value], rfl⟩ }
  · split
    · exact .refl ctx
    · rename_i value rest _
      have scanned : InstructionFrame ctx { ctx with input := rest } := { InstructionFrame.refl ctx with }
      by_cases access : ctx.memory.DataAccess argAddress
      · have written : ({ ctx with input := rest } : ExecutionContext).memory.writeDataWord argAddress value =
            .ok (ctx.physical.putWord (ctx.process.layout.dataAddress + argAddress) value) :=
          ProcessMemory.writeDataWord_ok value access
        simp only [written]
        exact scanned.trans
          (.of_putWord fun packed k low high => Or.inl (dataAccess_contains access packed low high))
      · obtain ⟨message, refused⟩ := ProcessMemory.writeDataWord_error value access
        have failed : ({ ctx with input := rest } : ExecutionContext).memory.writeDataWord argAddress value =
            .error (.vmException message) := refused
        simp only [failed]
        exact scanned
  · exact { InstructionFrame.refl ctx with state := Or.inr ⟨rfl, rfl⟩, halted := fun _ => rfl }
  · exact .of_process rfl rfl rfl (fun was => was)
  · cases readLoadPath ctx.memory argAddress 256 0 <;> exact .refl ctx
  · exact .refl ctx

end SyscallHandler

theorem finishCall_frame (syscallId : Option SyscallId) (ctx : ExecutionContext) :
    InstructionFrame ctx (finishCall syscallId ctx).2 := by
  have advanced : InstructionFrame ctx ctx.advancePc := .of_registers _
  unfold finishCall
  dsimp only
  split
  · exact advanced
  · split
    · exact advanced
    · exact advanced.trans (.of_useTimeSlice _)

/-- With the advance of PC behind it. -/
theorem executeCall_frame (instruction : DecodedInstruction) (ctx : ExecutionContext) :
    InstructionFrame ctx (executeCall instruction ctx).2 := by
  unfold executeCall
  dsimp only
  have handled := SyscallHandler.handle_frame (SyscallId.ofField? instruction.rs1) (instruction.imm.setWidth 32) ctx
  revert handled
  rcases SyscallHandler.handle (SyscallId.ofField? instruction.rs1) (instruction.imm.setWidth 32) ctx with
    ⟨_ | _ | path, after⟩
  · exact fun handled => handled
  · exact fun handled => handled.trans (finishCall_frame _ after)
  · exact fun handled => handled

theorem finishExecute_frame (instruction : DecodedInstruction) (ctx : ExecutionContext) :
    InstructionFrame ctx (finishExecute (InstructionRegistry.execute instruction ctx)).2 := by
  have confined := (effect_confined instruction ctx).frame
  rw [← execute_eq] at confined
  revert confined
  rcases InstructionRegistry.execute instruction ctx with ⟨_ | result, after⟩
  · exact fun confined => confined
  · exact fun confined => confined.trans (.of_useTimeSlice after)

/-- No instruction touches anything of another process, and what it does to its
own process is limited to registers, data, stack and flags. -/
theorem beginInstruction_frame (ctx : ExecutionContext) : InstructionFrame ctx (beginInstruction ctx).2 := by
  cases fetched : ctx.fetch? with
  | none =>
    rw [beginInstruction_of_fetch_none fetched]
    exact .refl ctx
  | some instruction =>
    rw [beginInstruction_of_fetch fetched]
    split
    · exact executeCall_frame instruction ctx
    · exact finishExecute_frame instruction ctx

end VirtualMachine
