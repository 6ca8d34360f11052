import VirtualMachine.Isa.Handlers

namespace VirtualMachine

/-- What one instruction does to its context. The handlers have many shapes
but only these five outcomes. -/
inductive Effect
  /-- Only registers change. -/
  | registers (after : RegisterFile) (result : ExecutionResult)
  /-- One word of memory changes, and registers. -/
  | store (address : Address) (value : Word) (after : RegisterFile)
  | halt
  /-- `ExecutionResult::Error`; a push may have moved SP. -/
  | fail (message : String) (sp : Address)
  | throw (error : Exception)

namespace Effect

/-- What an effect does to a context, and what the handler returns or throws. -/
def apply (ctx : ExecutionContext) : Effect → Except Exception ExecutionResult × ExecutionContext
  | registers after result => (.ok result, ctx.withRegisters after)
  | store address value after =>
    (.ok .Continue, (ctx.withPhysical (ctx.physical.putWord address value)).withRegisters after)
  | halt => (.ok .Halt, { ctx with process := ctx.process.setHalted true })
  | fail message sp => (.ok .Error, setExecutionError (ctx.withRegisters (ctx.registers.setSp sp)) message)
  | throw e => (.error e, ctx)

/-- The operands of an instruction. -/
structure Operands where
  lhs : Word
  rhs : Word
  target : Word

end Effect

/-- The operands are read whether or not the opcode uses them; reading has no
effect. -/
def operands (instruction : DecodedInstruction) (ctx : ExecutionContext) : Effect.Operands :=
  { lhs := ctx.registers.get instruction.rs1
    rhs := readOperand instruction ctx
    target := ctx.registers.get instruction.rd }

namespace ExecutionContext

/-- The effect of writing a result to `rd`, with the flags set by `flags`. -/
def result (ctx : ExecutionContext) (instruction : DecodedInstruction) (value : Word)
    (flags : RegisterFile → RegisterFile) : Effect :=
  .registers (flags (ctx.registers.set instruction.rd value)).advancePc .Continue

def jumpEffect (ctx : ExecutionContext) (instruction : DecodedInstruction) : Effect :=
  .registers (ctx.registers.setPc (instruction.imm.signExtend 32)) .Jump

def loadEffect (ctx : ExecutionContext) (instruction : DecodedInstruction) : Effect :=
  match ctx.memory.readDataWord (instruction.imm.signExtend 32) with
  | .error e => .throw e
  | .ok value => ctx.result instruction value id

def storeEffect (ctx : ExecutionContext) (instruction : DecodedInstruction) : Effect :=
  let offset : Address := instruction.imm.signExtend 32
  match ctx.memory.writeDataWord offset (ctx.registers.get instruction.rd) with
  | .error e => .throw e
  | .ok _ =>
    .store (ctx.process.layout.dataAddress + offset) (ctx.registers.get instruction.rd) ctx.registers.advancePc

def pushEffect (ctx : ExecutionContext) (value : Word) : Effect :=
  let sp := ctx.registers.sp
  if ctx.memory.canPush sp then
    if sp.toNat ≤ ctx.physical.size then .store (sp - 4) value (ctx.registers.setSp (sp - 4)).advancePc
    else .fail ("memory access out of bounds at address " ++ toString (sp - 4).toNat) (sp - 4)
  else .fail "stack overflow" sp

/-- `POP` and `RET`, by what becomes of the popped word. -/
def popEffect (ctx : ExecutionContext) (use : RegisterFile → Word → RegisterFile) (result : ExecutionResult) :
    Effect :=
  let sp := ctx.registers.sp
  if ctx.memory.canPop sp then
    if sp.toNat + 4 ≤ ctx.physical.size then
      .registers (use (ctx.registers.setSp (sp + 4)) (ctx.physical.wordAt sp)) result
    else .fail ("memory access out of bounds at address " ++ toString sp.toNat) sp
  else .fail "stack underflow" sp

end ExecutionContext

/-- The instruction set by its effects, one line for each opcode. -/
def effect (instruction : DecodedInstruction) (ctx : ExecutionContext) : Effect :=
  let ⟨lhs, rhs, target⟩ := operands instruction ctx
  match Opcode.ofByte? instruction.opcode with
  | none => .throw (.vmException "unknown opcode")
  | some .CALL => .throw (.vmException "unknown opcode")
  | some .MOV => ctx.result instruction rhs id
  | some .ADD => ctx.result instruction (lhs + rhs) (·.updateFlags (lhs + rhs))
  | some .SUB => ctx.result instruction (lhs - rhs) (·.updateFlagsSub lhs rhs (lhs - rhs))
  | some .MUL => ctx.result instruction (lhs * rhs) (·.updateFlags (lhs * rhs))
  | some .DIV =>
    if rhs = 0 then .fail "division by zero" ctx.registers.sp
    else ctx.result instruction (lhs / rhs) (·.updateFlags (lhs / rhs))
  | some .MOD =>
    if rhs = 0 then .fail "modulo by zero" ctx.registers.sp
    else ctx.result instruction (lhs % rhs) (·.updateFlags (lhs % rhs))
  | some .INC => ctx.result instruction (target + 1) (·.updateFlags (target + 1))
  | some .DEC => ctx.result instruction (target - 1) (·.updateFlagsSub target 1 (target - 1))
  | some .AND => ctx.result instruction (lhs &&& rhs) (·.updateFlags (lhs &&& rhs))
  | some .OR => ctx.result instruction (lhs ||| rhs) (·.updateFlags (lhs ||| rhs))
  | some .XOR => ctx.result instruction (lhs ^^^ rhs) (·.updateFlags (lhs ^^^ rhs))
  | some .NOT => ctx.result instruction (~~~target) (·.updateFlags (~~~target))
  | some .CMP => .registers (ctx.registers.updateFlagsSub lhs rhs (lhs - rhs)).advancePc .Continue
  | some .JMP => ctx.jumpEffect instruction
  | some .JE | some .JNE | some .JG | some .JGE | some .JL | some .JLE =>
    if takeJump ctx.registers.flags instruction.opcode then ctx.jumpEffect instruction
    else .registers ctx.registers.advancePc .Continue
  | some .LOAD => ctx.loadEffect instruction
  | some .STORE => ctx.storeEffect instruction
  | some .HALT => .halt
  | some .NOP => .registers ctx.registers.advancePc .Continue
  | some .PUSH => ctx.pushEffect rhs
  | some .POP =>
    ctx.popEffect (fun registers value => (registers.set instruction.rd value).advancePc) .Continue
  | some .RET => ctx.popEffect (fun registers value => registers.setPc value) .Jump

variable {instruction : DecodedInstruction} {ctx : ExecutionContext}

/-- A division by zero is an error of the instruction and no exception. -/
theorem divisionHandler_eq (operation : Word → Word → Word) (message : String) :
    divisionHandler operation message instruction ctx =
      (if (operands instruction ctx).rhs = 0 then Effect.fail message ctx.registers.sp
        else ctx.result instruction (operation (operands instruction ctx).lhs (operands instruction ctx).rhs)
          (·.updateFlags (operation (operands instruction ctx).lhs (operands instruction ctx).rhs))).apply ctx := by
  by_cases zero : readOperand instruction ctx = 0
  · simp only [divisionHandler, operands, zero, if_true]
    rfl
  · simp only [divisionHandler, operands, zero, if_false]
    rfl

/-- A jump that is not taken is a step to the next instruction. -/
theorem conditionalJumpHandler_eq :
    conditionalJumpHandler instruction ctx =
      (if takeJump ctx.registers.flags instruction.opcode then ctx.jumpEffect instruction
        else Effect.registers ctx.registers.advancePc .Continue).apply ctx := by
  unfold conditionalJumpHandler
  split <;> rfl

theorem loadHandler_eq : loadHandler instruction ctx = (ctx.loadEffect instruction).apply ctx := by
  unfold loadHandler ExecutionContext.loadEffect
  dsimp only
  cases ctx.memory.readDataWord (instruction.imm.signExtend 32) <;> rfl

/-- `load` and `store` let the exception of an access outside the data segment
through, which a core does not catch. -/
theorem storeHandler_eq : storeHandler instruction ctx = (ctx.storeEffect instruction).apply ctx := by
  unfold storeHandler ExecutionContext.storeEffect
  dsimp only
  by_cases access : ctx.memory.DataAccess (instruction.imm.signExtend 32)
  · rw [ProcessMemory.writeDataWord_ok _ access]
    rfl
  · obtain ⟨message, refused⟩ := ProcessMemory.writeDataWord_error (ctx.registers.get instruction.rd) access
    rw [refused]
    rfl

/-- `push`, `pop` and `ret` catch theirs and turn it into an error. -/
theorem pushHandler_eq :
    pushHandler instruction ctx = (ctx.pushEffect (readOperand instruction ctx)).apply ctx := by
  unfold pushHandler ExecutionContext.pushEffect
  dsimp only
  cases room : ctx.memory.canPush ctx.registers.sp with
  | false =>
    rw [ProcessMemory.pushWord_overflow _ room]
    rfl
  | true =>
    obtain ⟨low, _⟩ := ProcessMemory.canPush_iff.mp room
    have lower : (ctx.registers.sp - 4).toNat = ctx.registers.sp.toNat - 4 := ProcessMemory.toNat_sub_four (by omega)
    rw [ProcessMemory.pushWord_of_canPush _ room]
    by_cases inMemory : ctx.registers.sp.toNat ≤ ctx.physical.size
    · have fits : (ctx.registers.sp - 4).toNat + 4 ≤ ctx.memory.physical.size := by
        simp only [ExecutionContext.memory]
        omega
      rw [PhysicalMemory.writeWord_ok _ fits, if_pos inMemory]
      rfl
    · have outside : ctx.memory.physical.size < (ctx.registers.sp - 4).toNat + 4 := by
        simp only [ExecutionContext.memory]
        omega
      rw [PhysicalMemory.writeWord_error _ outside, if_neg inMemory]
      rfl

/-- What `popWord` does, with both of its bounds. -/
theorem popWord_eq :
    ctx.memory.popWord ctx.registers.sp =
      if ctx.memory.canPop ctx.registers.sp then
        if ctx.registers.sp.toNat + 4 ≤ ctx.physical.size then
          .ok (ctx.physical.wordAt ctx.registers.sp, ctx.registers.sp + 4)
        else .error (PhysicalMemory.rangeError ctx.registers.sp)
      else .error (.vmException "stack underflow") := by
  cases room : ctx.memory.canPop ctx.registers.sp with
  | false => exact ProcessMemory.popWord_underflow room
  | true =>
    rw [ProcessMemory.popWord_of_canPop room, if_pos rfl]
    by_cases inMemory : ctx.registers.sp.toNat + 4 ≤ ctx.physical.size
    · have fits : ctx.registers.sp.toNat + 4 ≤ ctx.memory.physical.size := inMemory
      rw [if_pos inMemory, PhysicalMemory.readWord_ok fits]
      rfl
    · have outside : ctx.memory.physical.size < ctx.registers.sp.toNat + 4 := Nat.lt_of_not_le inMemory
      rw [if_neg inMemory, PhysicalMemory.readWord_error outside]
      rfl

theorem popHandler_eq :
    popHandler instruction ctx =
      (ctx.popEffect (fun registers value => (registers.set instruction.rd value).advancePc) .Continue).apply ctx := by
  unfold popHandler ExecutionContext.popEffect
  rw [popWord_eq]
  by_cases room : ctx.memory.canPop ctx.registers.sp = true
  · by_cases inMemory : ctx.registers.sp.toNat + 4 ≤ ctx.physical.size
    · simp only [if_pos room, if_pos inMemory]
      rfl
    · simp only [if_pos room, if_neg inMemory]
      rfl
  · simp only [if_neg room]
    rfl

theorem retHandler_eq :
    retHandler instruction ctx =
      (ctx.popEffect (fun registers value => registers.setPc value) .Jump).apply ctx := by
  unfold retHandler ExecutionContext.popEffect
  rw [popWord_eq]
  by_cases room : ctx.memory.canPop ctx.registers.sp = true
  · by_cases inMemory : ctx.registers.sp.toNat + 4 ≤ ctx.physical.size
    · simp only [if_pos room, if_pos inMemory]
      rfl
    · simp only [if_pos room, if_neg inMemory]
      rfl
  · simp only [if_neg room]
    rfl

/-- The registry finds the handler of an opcode by its byte. -/
theorem InstructionRegistry.execute_of_opcode {opcode : Opcode} {handler : Handler}
    (is : instruction.opcode = opcode.toByte) (registered : InstructionRegistry.handlers opcode = some handler) :
    InstructionRegistry.execute instruction ctx = handler instruction ctx := by
  rw [InstructionRegistry.execute, is, Opcode.ofByte?_toByte, Option.bind_some, registered]

/-- The registry does what the table of effects says. -/
theorem execute_eq (instruction : DecodedInstruction) (ctx : ExecutionContext) :
    InstructionRegistry.execute instruction ctx = (effect instruction ctx).apply ctx := by
  unfold InstructionRegistry.execute effect
  cases known : Opcode.ofByte? instruction.opcode with
  | none => rfl
  | some opcode =>
    cases opcode
    case DIV => exact divisionHandler_eq _ _
    case MOD => exact divisionHandler_eq _ _
    case JE => exact conditionalJumpHandler_eq
    case JNE => exact conditionalJumpHandler_eq
    case JG => exact conditionalJumpHandler_eq
    case JGE => exact conditionalJumpHandler_eq
    case JL => exact conditionalJumpHandler_eq
    case JLE => exact conditionalJumpHandler_eq
    case LOAD => exact loadHandler_eq
    case STORE => exact storeHandler_eq
    case PUSH => exact pushHandler_eq
    case POP => exact popHandler_eq
    case RET => exact retHandler_eq
    all_goals rfl

end VirtualMachine
