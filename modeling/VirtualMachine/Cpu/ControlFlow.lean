import VirtualMachine.Cpu.InstructionFrame

namespace VirtualMachine

/-- What an instruction does to PC. -/
inductive Control
  | stay
  | next
  | jump (target : Address)
  deriving DecidableEq, Repr

def Control.target (control : Control) (pc : Address) : Address :=
  match control with
  | stay => pc
  | next => pc + 1
  | jump target => target

namespace Effect

/-- PC after an effect. -/
def pc (ctx : ExecutionContext) : Effect → Address
  | registers after _ => after.pc
  | store _ _ after => after.pc
  | _ => ctx.registers.pc

/-- An effect moves PC as its `pc` says. -/
theorem pc_apply (effect : Effect) (ctx : ExecutionContext) : (effect.apply ctx).2.registers.pc = effect.pc ctx := by
  cases effect <;> rfl

end Effect

namespace ExecutionContext

/-- The control flow of the instructions in the registry: everything moves on
to the next word except jumps, `RET`, `HALT` and what fails. -/
def control (instruction : DecodedInstruction) (ctx : ExecutionContext) : Control :=
  let onlyIf (completes : Prop) [Decidable completes] : Control := if completes then .next else .stay
  match Opcode.ofByte? instruction.opcode with
  | none => .stay
  | some .CALL => .stay
  | some .HALT => .stay
  | some .JMP => .jump (instruction.imm.signExtend 32)
  | some .JE | some .JNE | some .JG | some .JGE | some .JL | some .JLE =>
    if takeJump ctx.registers.flags instruction.opcode then .jump (instruction.imm.signExtend 32) else .next
  | some .RET =>
    if ctx.memory.canPop ctx.registers.sp = true ∧ ctx.registers.sp.toNat + 4 ≤ ctx.physical.size then
      .jump (ctx.physical.wordAt ctx.registers.sp)
    else .stay
  | some .DIV | some .MOD => onlyIf (readOperand instruction ctx ≠ 0)
  | some .LOAD | some .STORE => onlyIf (ctx.memory.DataAccess (instruction.imm.signExtend 32))
  | some .PUSH =>
    onlyIf (ctx.memory.canPush ctx.registers.sp = true ∧ ctx.registers.sp.toNat ≤ ctx.physical.size)
  | some .POP =>
    onlyIf (ctx.memory.canPop ctx.registers.sp = true ∧ ctx.registers.sp.toNat + 4 ≤ ctx.physical.size)
  | some _ => .next

/-- A system call moves on to the next word unless it throws. `loaded` tells
whether the load callback, if it is invoked, returns. -/
def callControl (loaded : Bool) (instruction : DecodedInstruction) (ctx : ExecutionContext) : Control :=
  let argAddress : Word := instruction.imm.setWidth 32
  let onlyIf (completes : Prop) [Decidable completes] : Control := if completes then .next else .stay
  match SyscallId.ofField? instruction.rs1 with
  | some .Print => onlyIf (ctx.memory.DataAccess argAddress)
  | some .Scan => onlyIf (ctx.input ≠ [] ∧ ctx.memory.DataAccess argAddress)
  | some .Load => onlyIf ((SyscallHandler.readLoadPath ctx.memory argAddress 256 0).isOk = true ∧ loaded = true)
  | _ => .next

/-- The control flow of the next instruction. -/
def nextControl (loaded : Bool) (ctx : ExecutionContext) : Control :=
  match ctx.fetch? with
  | none => .stay
  | some instruction =>
    if instruction.opcode = Opcode.CALL.toByte then ctx.callControl loaded instruction else ctx.control instruction

/-- The context at the end of `executeInstruction`, returned from or not. The
load callback does not touch the process it is called for. -/
def afterCallback (loaded : Bool) : Except Exception Progress × ExecutionContext → ExecutionContext
  | (.ok (.loading _), ctx) => if loaded then (finishCall (some .Load) ctx).2 else ctx
  | (_, ctx) => ctx

def advance (loaded : Bool) (ctx : ExecutionContext) : ExecutionContext := afterCallback loaded (beginInstruction ctx)

variable {ctx : ExecutionContext} {instruction : DecodedInstruction}

/-- For each opcode the effect moves PC as the control flow of the instruction says. -/
theorem effect_pc (instruction : DecodedInstruction) (ctx : ExecutionContext) :
    (effect instruction ctx).pc ctx = (ctx.control instruction).target ctx.registers.pc := by
  unfold effect control
  cases Opcode.ofByte? instruction.opcode with
  | none => rfl
  | some opcode =>
    cases opcode
    case DIV | MOD =>
      by_cases zero : readOperand instruction ctx = 0
      · simp [operands, zero, Effect.pc, Control.target]
      · have moved : (operands instruction ctx).rhs ≠ 0 := zero
        dsimp only
        rw [if_neg moved, if_pos zero]
        rfl
    case LOAD =>
      by_cases access : ctx.memory.DataAccess (instruction.imm.signExtend 32)
      · simp [loadEffect, ProcessMemory.readDataWord_ok access, access, Effect.pc, Control.target, result]
      · obtain ⟨message, refused⟩ := ProcessMemory.readDataWord_error access
        simp [loadEffect, refused, access, Effect.pc, Control.target]
    case STORE =>
      by_cases access : ctx.memory.DataAccess (instruction.imm.signExtend 32)
      · simp [storeEffect, ProcessMemory.writeDataWord_ok _ access, access, Effect.pc, Control.target]
      · obtain ⟨message, refused⟩ := ProcessMemory.writeDataWord_error (ctx.registers.get instruction.rd) access
        simp [storeEffect, refused, access, Effect.pc, Control.target]
    case PUSH =>
      by_cases room : ctx.memory.canPush ctx.registers.sp = true
      · by_cases inMemory : ctx.registers.sp.toNat ≤ ctx.physical.size
        · simp [pushEffect, room, inMemory, Effect.pc, Control.target]
        · simp [pushEffect, room, inMemory, Effect.pc, Control.target]
      · simp [pushEffect, room, Effect.pc, Control.target]
    case POP | RET =>
      by_cases room : ctx.memory.canPop ctx.registers.sp = true
      · by_cases inMemory : ctx.registers.sp.toNat + 4 ≤ ctx.physical.size
        · simp [popEffect, room, inMemory, Effect.pc, Control.target]
        · simp [popEffect, room, inMemory, Effect.pc, Control.target]
      · simp [popEffect, room, Effect.pc, Control.target]
    case JE | JNE | JG | JGE | JL | JLE =>
      by_cases taken : takeJump ctx.registers.flags instruction.opcode = true
      · simp [taken, jumpEffect, Effect.pc, Control.target]
      · simp [taken, Effect.pc, Control.target]
    all_goals rfl

/-- The same for the system calls, the load callback included. -/
theorem handle_control (loaded : Bool) (instruction : DecodedInstruction) (ctx : ExecutionContext) :
    (afterCallback loaded (executeCall instruction ctx)).registers.pc =
      (ctx.callControl loaded instruction).target ctx.registers.pc := by
  unfold executeCall callControl SyscallHandler.handle
  dsimp only
  cases SyscallId.ofField? instruction.rs1 with
  | none => rfl
  | some id =>
    cases id
    case Print =>
      by_cases access : ctx.memory.DataAccess (instruction.imm.setWidth 32)
      · simp only [ProcessMemory.readDataWord_ok access, if_pos access]
        rfl
      · obtain ⟨message, refused⟩ := ProcessMemory.readDataWord_error access
        simp only [refused, if_neg access]
        rfl
    case Scan =>
      cases input : ctx.input with
      | nil => rfl
      | cons value rest =>
        by_cases access : ctx.memory.DataAccess (instruction.imm.setWidth 32)
        · have written : ({ ctx with input := rest } : ExecutionContext).memory.writeDataWord
              (instruction.imm.setWidth 32) value = .ok _ := ProcessMemory.writeDataWord_ok value access
          have completes : value :: rest ≠ [] ∧ ctx.memory.DataAccess (instruction.imm.setWidth 32) :=
            ⟨List.cons_ne_nil _ _, access⟩
          simp only [written, if_pos completes]
          rfl
        · obtain ⟨message, refused⟩ := ProcessMemory.writeDataWord_error value access
          have failed : ({ ctx with input := rest } : ExecutionContext).memory.writeDataWord
              (instruction.imm.setWidth 32) value = .error (.vmException message) := refused
          have fails : ¬ (value :: rest ≠ [] ∧ ctx.memory.DataAccess (instruction.imm.setWidth 32)) :=
            fun completes => access completes.2
          simp only [failed, if_neg fails]
          rfl
    case Exit | Yield => rfl
    case Load =>
      cases SyscallHandler.readLoadPath ctx.memory (instruction.imm.setWidth 32) 256 0 with
      | error e => rfl
      | ok path => cases loaded <;> rfl

/-- PC moves as the control flow of the instruction says, and only so. -/
theorem advance_pc (loaded : Bool) (ctx : ExecutionContext) :
    (ctx.advance loaded).registers.pc = (ctx.nextControl loaded).target ctx.registers.pc := by
  unfold advance nextControl
  cases fetched : ctx.fetch? with
  | none =>
    rw [beginInstruction_of_fetch_none fetched]
    rfl
  | some instruction =>
    rw [beginInstruction_of_fetch fetched]
    dsimp only
    split
    · exact handle_control loaded instruction ctx
    · rw [← effect_pc, execute_eq, ← Effect.pc_apply]
      rcases (effect instruction ctx).apply ctx with ⟨_ | result, after⟩ <;> rfl

/-- The rest of the step is within the frame of an instruction. -/
theorem advance_frame (loaded : Bool) (ctx : ExecutionContext) : InstructionFrame ctx (ctx.advance loaded) := by
  have frame := beginInstruction_frame ctx
  unfold advance afterCallback
  split
  · rename_i path after began
    rw [began] at frame
    split
    · exact frame.trans (finishCall_frame (some .Load) after)
    · exact frame
  · rename_i outcome after began
    rw [began] at frame
    exact frame

end ExecutionContext

end VirtualMachine
