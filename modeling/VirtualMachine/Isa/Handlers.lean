import VirtualMachine.Process.ProcessControlBlock

namespace VirtualMachine

inductive ExecutionResult
  | Continue | Halt | Yield | Jump | Error
  deriving DecidableEq, Repr

/-- Everything one instruction can reach through its references: the process,
the memory all processes share, and the two streams of the system calls. What
is printed is kept with the process that printed it. The input is the list of
numbers that `in_ >> value` still extracts; after them every extraction fails. -/
@[ext]
structure ExecutionContext where
  process : ProcessControlBlock
  physical : PhysicalMemory
  input : List Word := []
  output : List (ProcessId × Word) := []

namespace ExecutionContext

def registers (ctx : ExecutionContext) : RegisterFile := ctx.process.context.registers

def memory (ctx : ExecutionContext) : ProcessMemory := ⟨ctx.physical, ctx.process.layout⟩

def withRegisters (ctx : ExecutionContext) (registers : RegisterFile) : ExecutionContext :=
  { ctx with process := ctx.process.setRegisters registers }

def withPhysical (ctx : ExecutionContext) (physical : PhysicalMemory) : ExecutionContext :=
  { ctx with physical := physical }

end ExecutionContext

/-- A handler returns or throws; what it has changed by then stays changed. -/
abbrev Handler := DecodedInstruction → ExecutionContext → Except Exception ExecutionResult × ExecutionContext

def readOperand (instruction : DecodedInstruction) (ctx : ExecutionContext) : Word :=
  if instruction.rs2.setWidth 8 = kImmediateMarker then instruction.imm.signExtend 32
  else ctx.registers.get instruction.rs2

def takeJump (flags : CpuFlags) (opcode : Byte) : Bool :=
  match Opcode.ofByte? opcode with
  | some .JE => flags.zero
  | some .JNE => !flags.zero
  | some .JG => !flags.zero && !flags.sign
  | some .JGE => !flags.sign
  | some .JL => flags.sign
  | some .JLE => flags.zero || flags.sign
  | _ => false

def setExecutionError (ctx : ExecutionContext) (message : String) : ExecutionContext :=
  { ctx with process := ctx.process.setLastError message }

/-- `ADD`, `SUB`, `MUL`, `AND`, `OR` and `XOR` differ in the operation and in
the flags they set. -/
def binaryHandler (operation : Word → Word → Word)
    (updateFlags : RegisterFile → Word → Word → Word → RegisterFile) : Handler := fun instruction ctx =>
  let lhs := ctx.registers.get instruction.rs1
  let rhs := readOperand instruction ctx
  let result := operation lhs rhs
  let registers := ctx.registers.set instruction.rd result
  let registers := updateFlags registers lhs rhs result
  (.ok .Continue, ctx.withRegisters registers.advancePc)

def resultFlags (registers : RegisterFile) (_ _ result : Word) : RegisterFile := registers.updateFlags result

def addHandler : Handler := binaryHandler (fun lhs rhs => lhs + rhs) resultFlags
def subHandler : Handler := binaryHandler (fun lhs rhs => lhs - rhs) RegisterFile.updateFlagsSub
def mulHandler : Handler := binaryHandler (fun lhs rhs => lhs * rhs) resultFlags
def andHandler : Handler := binaryHandler (fun lhs rhs => lhs &&& rhs) resultFlags
def orHandler : Handler := binaryHandler (fun lhs rhs => lhs ||| rhs) resultFlags
def xorHandler : Handler := binaryHandler (fun lhs rhs => lhs ^^^ rhs) resultFlags

/-- `DIV` and `MOD`, with the message for a zero divisor. -/
def divisionHandler (operation : Word → Word → Word) (message : String) : Handler := fun instruction ctx =>
  let lhs := ctx.registers.get instruction.rs1
  let rhs := readOperand instruction ctx
  if rhs = 0 then (.ok .Error, setExecutionError ctx message)
  else
    let result := operation lhs rhs
    let registers := ctx.registers.set instruction.rd result
    let registers := registers.updateFlags result
    (.ok .Continue, ctx.withRegisters registers.advancePc)

def divHandler : Handler := divisionHandler (fun lhs rhs => lhs / rhs) "division by zero"
def modHandler : Handler := divisionHandler (fun lhs rhs => lhs % rhs) "modulo by zero"

/-- `INC`, `DEC` and `NOT`. -/
def unaryHandler (operation : Word → Word) (updateFlags : RegisterFile → Word → Word → RegisterFile) :
    Handler := fun instruction ctx =>
  let oldValue := ctx.registers.get instruction.rd
  let value := operation oldValue
  let registers := ctx.registers.set instruction.rd value
  let registers := updateFlags registers oldValue value
  (.ok .Continue, ctx.withRegisters registers.advancePc)

def incHandler : Handler := unaryHandler (fun value => value + 1) (fun registers _ value => registers.updateFlags value)
def decHandler : Handler :=
  unaryHandler (fun value => value - 1) (fun registers oldValue value => registers.updateFlagsSub oldValue 1 value)
def notHandler : Handler := unaryHandler (fun value => ~~~value) (fun registers _ value => registers.updateFlags value)

def cmpHandler : Handler := fun instruction ctx =>
  let lhs := ctx.registers.get instruction.rs1
  let rhs := readOperand instruction ctx
  let result := lhs - rhs
  let registers := ctx.registers.updateFlagsSub lhs rhs result
  (.ok .Continue, ctx.withRegisters registers.advancePc)

def jmpHandler : Handler := fun instruction ctx =>
  (.ok .Jump, ctx.withRegisters (ctx.registers.setPc (instruction.imm.signExtend 32)))

def conditionalJumpHandler : Handler := fun instruction ctx =>
  if takeJump ctx.registers.flags instruction.opcode then
    (.ok .Jump, ctx.withRegisters (ctx.registers.setPc (instruction.imm.signExtend 32)))
  else (.ok .Continue, ctx.withRegisters ctx.registers.advancePc)

def movHandler : Handler := fun instruction ctx =>
  let value := readOperand instruction ctx
  (.ok .Continue, ctx.withRegisters (ctx.registers.set instruction.rd value).advancePc)

def loadHandler : Handler := fun instruction ctx =>
  let offset : Address := instruction.imm.signExtend 32
  match ctx.memory.readDataWord offset with
  | .error e => (.error e, ctx)
  | .ok value => (.ok .Continue, ctx.withRegisters (ctx.registers.set instruction.rd value).advancePc)

def storeHandler : Handler := fun instruction ctx =>
  let offset : Address := instruction.imm.signExtend 32
  let value := ctx.registers.get instruction.rd
  match ctx.memory.writeDataWord offset value with
  | .error e => (.error e, ctx)
  | .ok physical => (.ok .Continue, (ctx.withPhysical physical).withRegisters ctx.registers.advancePc)

/-- The `catch (const VmException&)` of the stack handlers. -/
def catchVmException (ctx : ExecutionContext) : Exception → Except Exception ExecutionResult × ExecutionContext
  | .vmException message => (.ok .Error, setExecutionError ctx message)
  | e => (.error e, ctx)

def pushHandler : Handler := fun instruction ctx =>
  let value := readOperand instruction ctx
  match ctx.memory.pushWord value ctx.registers.sp with
  | (.error e, sp) => catchVmException (ctx.withRegisters (ctx.registers.setSp sp)) e
  | (.ok physical, sp) =>
    (.ok .Continue, (ctx.withPhysical physical).withRegisters (ctx.registers.setSp sp).advancePc)

def popHandler : Handler := fun instruction ctx =>
  match ctx.memory.popWord ctx.registers.sp with
  | .error e => catchVmException ctx e
  | .ok (value, sp) =>
    (.ok .Continue, ctx.withRegisters ((ctx.registers.setSp sp).set instruction.rd value).advancePc)

def retHandler : Handler := fun _ ctx =>
  match ctx.memory.popWord ctx.registers.sp with
  | .error e => catchVmException ctx e
  | .ok (returnPc, sp) => (.ok .Jump, ctx.withRegisters ((ctx.registers.setSp sp).setPc returnPc))

def nopHandler : Handler := fun _ ctx => (.ok .Continue, ctx.withRegisters ctx.registers.advancePc)

def haltHandler : Handler := fun _ ctx => (.ok .Halt, { ctx with process := ctx.process.setHalted true })

namespace InstructionRegistry

/-- The handlers that `registerDefaultHandlers` registers; `CALL` has none. -/
def handlers : Opcode → Option Handler
  | .MOV => some movHandler
  | .ADD => some addHandler
  | .SUB => some subHandler
  | .MUL => some mulHandler
  | .DIV => some divHandler
  | .MOD => some modHandler
  | .INC => some incHandler
  | .DEC => some decHandler
  | .AND => some andHandler
  | .OR => some orHandler
  | .XOR => some xorHandler
  | .NOT => some notHandler
  | .CMP => some cmpHandler
  | .JMP => some jmpHandler
  | .JE => some conditionalJumpHandler
  | .JNE => some conditionalJumpHandler
  | .JG => some conditionalJumpHandler
  | .JGE => some conditionalJumpHandler
  | .JL => some conditionalJumpHandler
  | .JLE => some conditionalJumpHandler
  | .LOAD => some loadHandler
  | .STORE => some storeHandler
  | .CALL => none
  | .HALT => some haltHandler
  | .NOP => some nopHandler
  | .PUSH => some pushHandler
  | .POP => some popHandler
  | .RET => some retHandler

def execute : Handler := fun instruction ctx =>
  match (Opcode.ofByte? instruction.opcode).bind handlers with
  | none => (.error (.vmException "unknown opcode"), ctx)
  | some handler => handler instruction ctx

end InstructionRegistry

end VirtualMachine
