import VirtualMachine.Os.SyscallHandler

namespace VirtualMachine

/-- How far `executeInstruction` gets without the load callback. -/
inductive Progress
  | finished (result : ExecutionResult)
  | loading (path : List Byte)
  deriving DecidableEq, Repr

namespace ExecutionContext

/-- The truncated subtraction is the test `timeSliceLeft > 0`. -/
def useTimeSlice (ctx : ExecutionContext) : ExecutionContext :=
  { ctx with
    process := { ctx.process with
      context := { ctx.process.context with timeSliceLeft := ctx.process.context.timeSliceLeft - 1 } } }

def advancePc (ctx : ExecutionContext) : ExecutionContext := ctx.withRegisters ctx.registers.advancePc

end ExecutionContext

/-- The end of `executeInstruction` after a system call has been handled. -/
def finishCall (syscallId : Option SyscallId) (ctx : ExecutionContext) : ExecutionResult × ExecutionContext :=
  let ctx := ctx.advancePc
  if syscallId = some .Exit then (.Halt, ctx)
  else if syscallId = some .Yield then (.Yield, ctx)
  else (.Continue, ctx.useTimeSlice)

/-- The branch of `executeInstruction` for `CALL`, once the syscall handler has returned. -/
def finishHandle (syscallId : Option SyscallId) :
    Except Exception SyscallProgress × ExecutionContext → Except Exception Progress × ExecutionContext
  | (.error e, ctx) => (.error e, ctx)
  | (.ok (.load path), ctx) => (.ok (.loading path), ctx)
  | (.ok .done, ctx) => (.ok (.finished (finishCall syscallId ctx).1), (finishCall syscallId ctx).2)

def executeCall (instruction : DecodedInstruction) (ctx : ExecutionContext) :
    Except Exception Progress × ExecutionContext :=
  let syscallId := SyscallId.ofField? instruction.rs1
  let argAddress : Word := instruction.imm.setWidth 32
  finishHandle syscallId (SyscallHandler.handle syscallId argAddress ctx)

/-- The other branch, once the handler of the registry has returned. -/
def finishExecute : Except Exception ExecutionResult × ExecutionContext → Except Exception Progress × ExecutionContext
  | (.error e, ctx) => (.error e, ctx)
  | (.ok result, ctx) => (.ok (.finished result), ctx.useTimeSlice)

/-- `executeInstruction` up to its end or to the invocation of the load callback. -/
def beginInstruction (ctx : ExecutionContext) : Except Exception Progress × ExecutionContext :=
  match ctx.memory.readCodeWord ctx.registers.pc with
  | .error e => (.error e, ctx)
  | .ok raw =>
    let instruction := decodeInstruction raw
    if instruction.opcode = Opcode.CALL.toByte then executeCall instruction ctx
    else finishExecute (InstructionRegistry.execute instruction ctx)

namespace ExecutionContext

/-- Where the next instruction is fetched. -/
def fetchAddress (ctx : ExecutionContext) : Address :=
  ProcessMemory.codeWordAddress ctx.process.layout ctx.registers.pc

/-- The next instruction, if its word can be fetched. -/
def fetch? (ctx : ExecutionContext) : Option DecodedInstruction :=
  if ctx.fetchAddress.toNat + 4 ≤ ctx.physical.size then
    some (decodeInstruction (ctx.physical.wordAt ctx.fetchAddress))
  else none

/-- The next instruction is this system call. -/
def NextCalls (ctx : ExecutionContext) (id : SyscallId) : Prop :=
  ∃ instruction ∈ ctx.fetch?, instruction.opcode = Opcode.CALL.toByte ∧
    SyscallId.ofField? instruction.rs1 = some id

instance (ctx : ExecutionContext) (id : SyscallId) : Decidable (ctx.NextCalls id) :=
  inferInstanceAs (Decidable (∃ instruction ∈ ctx.fetch?, _ ∧ _))

end ExecutionContext

variable {ctx : ExecutionContext} {instruction : DecodedInstruction}

theorem beginInstruction_of_fetch_none (missing : ctx.fetch? = none) :
    beginInstruction ctx = (.error (PhysicalMemory.rangeError ctx.fetchAddress), ctx) := by
  have outside : ctx.physical.size < ctx.fetchAddress.toNat + 4 := by
    by_contra inside
    rw [ExecutionContext.fetch?, if_pos (Nat.le_of_not_lt inside)] at missing
    cases missing
  have refused : ctx.memory.readCodeWord ctx.registers.pc = .error (PhysicalMemory.rangeError ctx.fetchAddress) :=
    PhysicalMemory.readWord_error outside
  rw [beginInstruction, refused]

theorem beginInstruction_of_fetch (fetched : ctx.fetch? = some instruction) :
    beginInstruction ctx =
      if instruction.opcode = Opcode.CALL.toByte then executeCall instruction ctx
      else finishExecute (InstructionRegistry.execute instruction ctx) := by
  unfold ExecutionContext.fetch? at fetched
  split at fetched
  · rename_i inside
    have read : ctx.memory.readCodeWord ctx.registers.pc = .ok (ctx.physical.wordAt ctx.fetchAddress) :=
      PhysicalMemory.readWord_ok inside
    rw [beginInstruction, read]
    cases fetched
    rfl
  · cases fetched

/-- The context with this word as its next instruction. -/
def ExecutionContext.facing (ctx : ExecutionContext) (word : Word) : ExecutionContext :=
  ctx.withPhysical (ctx.physical.putWord ctx.fetchAddress word)

theorem ExecutionContext.fetch?_facing (word : Word) (inside : ctx.fetchAddress.toNat + 4 ≤ ctx.physical.size) :
    (ctx.facing word).fetch? = some (decodeInstruction word) := by
  have same : (ctx.facing word).physical.wordAt (ctx.facing word).fetchAddress = word :=
    PhysicalMemory.wordAt_putWord_same word
  have inside' : (ctx.facing word).fetchAddress.toNat + 4 ≤ (ctx.facing word).physical.size := inside
  rw [fetch?, if_pos inside', same]

end VirtualMachine
