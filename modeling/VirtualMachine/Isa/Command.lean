import VirtualMachine.Cpu.Instruction

namespace VirtualMachine

open LittleEndian

/-- The second operand of an instruction. -/
inductive Value
  | register (index : RegisterIndex)
  | constant (word : Word)
  deriving DecidableEq, Repr

inductive BinaryOperator
  | add | sub | mul | div | mod | and | or | xor
  deriving DecidableEq, Repr

inductive UnaryOperator
  | inc | dec | not
  deriving DecidableEq, Repr

inductive Condition
  | always | equal | notEqual | greater | greaterEqual | less | lessEqual
  deriving DecidableEq, Repr

inductive Command
  | mov (rd : RegisterIndex) (value : Value)
  | binary (operator : BinaryOperator) (rd lhs : RegisterIndex) (value : Value)
  | cmp (lhs : RegisterIndex) (value : Value)
  | unary (operator : UnaryOperator) (rd : RegisterIndex)
  | jump (condition : Condition) (target : Address)
  | load (rd : RegisterIndex) (offset : Address)
  | store (rd : RegisterIndex) (offset : Address)
  | push (value : Value)
  | pop (rd : RegisterIndex)
  | ret
  | halt
  | nop
  /-- No id stands for a number that is no system call. -/
  | call (id : Option SyscallId) (argument : Word)
  /-- The opcode byte of no instruction. -/
  | unknown
  deriving DecidableEq, Repr

def Value.decode (instruction : DecodedInstruction) : Value :=
  if instruction.rs2 = 15 then .constant (instruction.imm.signExtend 32) else .register instruction.rs2

def Command.ofInstruction (instruction : DecodedInstruction) : Command :=
  let value := Value.decode instruction
  let offset : Address := instruction.imm.signExtend 32
  let binary (operator : BinaryOperator) : Command := .binary operator instruction.rd instruction.rs1 value
  match Opcode.ofByte? instruction.opcode with
  | none => .unknown
  | some .MOV => .mov instruction.rd value
  | some .ADD => binary .add
  | some .SUB => binary .sub
  | some .MUL => binary .mul
  | some .DIV => binary .div
  | some .MOD => binary .mod
  | some .AND => binary .and
  | some .OR => binary .or
  | some .XOR => binary .xor
  | some .CMP => .cmp instruction.rs1 value
  | some .INC => .unary .inc instruction.rd
  | some .DEC => .unary .dec instruction.rd
  | some .NOT => .unary .not instruction.rd
  | some .JMP => .jump .always offset
  | some .JE => .jump .equal offset
  | some .JNE => .jump .notEqual offset
  | some .JG => .jump .greater offset
  | some .JGE => .jump .greaterEqual offset
  | some .JL => .jump .less offset
  | some .JLE => .jump .lessEqual offset
  | some .LOAD => .load instruction.rd offset
  | some .STORE => .store instruction.rd offset
  | some .CALL => .call (SyscallId.ofField? instruction.rs1) (instruction.imm.setWidth 32)
  | some .HALT => .halt
  | some .NOP => .nop
  | some .PUSH => .push value
  | some .POP => .pop instruction.rd
  | some .RET => .ret

/-- The command that a word encodes. -/
def Command.decode (word : Word) : Command := .ofInstruction (decodeInstruction word)

theorem Opcode.toByte_of_ofByte? {byte : Byte} {opcode : Opcode} (known : Opcode.ofByte? byte = some opcode) :
    byte = opcode.toByte := by
  unfold Opcode.ofByte? at known
  split at known <;> cases known <;> exact BitVec.eq_of_toNat_eq ‹_›

/-- The number of words that the stack of a process holds. -/
def stackCapacity : Nat := kStackSize / wordSize

/-- What the instructions of a process work on. The top of the stack comes first. -/
@[ext]
structure ProcessModel where
  gpr : RegisterIndex → Word := fun _ => 0
  pc : Address := 0
  flags : CpuFlags := {}
  data : List Byte := []
  stack : List Word := []
  lastError : Option String := none
  input : List Word := []
  printed : List Word := []

namespace CpuFlags

def ofResult (flags : CpuFlags) (result : Word) : CpuFlags := { flags with zero := result == 0, sign := result.msb }

def ofDifference (lhs rhs : Word) : CpuFlags :=
  { zero := lhs == rhs
    sign := (lhs - rhs).msb
    carry := lhs.usubOverflow rhs
    overflow := lhs.ssubOverflow rhs }

end CpuFlags

namespace BinaryOperator

def result : BinaryOperator → Word → Word → Word
  | add, lhs, rhs => lhs + rhs
  | sub, lhs, rhs => lhs - rhs
  | mul, lhs, rhs => lhs * rhs
  | div, lhs, rhs => lhs / rhs
  | mod, lhs, rhs => lhs % rhs
  | and, lhs, rhs => lhs &&& rhs
  | or, lhs, rhs => lhs ||| rhs
  | xor, lhs, rhs => lhs ^^^ rhs

def flags (operator : BinaryOperator) (flags : CpuFlags) (lhs rhs : Word) : CpuFlags :=
  match operator with
  | sub => .ofDifference lhs rhs
  | _ => flags.ofResult (operator.result lhs rhs)

/-- Why there is no result. -/
def fault? : BinaryOperator → Word → Option String
  | div, 0 => some "division by zero"
  | mod, 0 => some "modulo by zero"
  | _, _ => none

theorem fault?_nonzero {operator : BinaryOperator} {rhs : Word} (nonzero : rhs ≠ 0) : operator.fault? rhs = none := by
  unfold fault?
  split
  · exact absurd rfl nonzero
  · exact absurd rfl nonzero
  · rfl

end BinaryOperator

namespace UnaryOperator

def result : UnaryOperator → Word → Word
  | inc, value => value + 1
  | dec, value => value - 1
  | not, value => ~~~value

def flags (operator : UnaryOperator) (flags : CpuFlags) (value : Word) : CpuFlags :=
  match operator with
  | dec => .ofDifference value 1
  | _ => flags.ofResult (operator.result value)

end UnaryOperator

def Condition.holds (flags : CpuFlags) : Condition → Bool
  | always => true
  | equal => flags.zero
  | notEqual => !flags.zero
  | greater => !flags.zero && !flags.sign
  | greaterEqual => !flags.sign
  | less => flags.sign
  | lessEqual => flags.zero || flags.sign

namespace ProcessModel

/-- The word at an offset of the data, if it ends inside. -/
def word? (data : List Byte) (offset : Nat) : Option Word :=
  if offset + wordSize ≤ data.length then some (ofBytes 32 wordSize (fun i => data.getD (offset + i) 0)) else none

def putWord (data : List Byte) (offset : Nat) (word : Word) : List Byte :=
  data.take offset ++ (List.range wordSize).map (byteOf word) ++ data.drop (offset + wordSize)

def outside (offset : Nat) : Exception :=
  .vmException ("data" ++ " segment access out of bounds at offset " ++ toString offset)

/-- The path at an offset of the data: up to the first zero byte, or for `count` bytes. -/
def readPath (data : List Byte) : Nat → Nat → Except Exception (List Byte)
  | 0, _ => .ok []
  | count + 1, offset =>
    match data[offset]? with
    | none => .error (outside offset)
    | some byte => if byte = 0 then .ok [] else (readPath data count (offset + 1)).map (fun path => byte :: path)

/-- How a command ends, and what it leaves. -/
abbrev Outcome := Except Exception Progress × ProcessModel

variable (m : ProcessModel)

def read : Value → Word
  | .register index => m.gpr index
  | .constant word => word

def write (rd : RegisterIndex) (word : Word) : ProcessModel := { m with gpr := Function.update m.gpr rd word }

def setFlags (flags : CpuFlags) : ProcessModel := { m with flags := flags }

def goTo (target : Address) : ProcessModel := { m with pc := target }

def next : ProcessModel := m.goTo (m.pc + 1)

def continues (m : ProcessModel) : Outcome := (.ok (.finished .Continue), m.next)

def jumps (target : Address) : Outcome := (.ok (.finished .Jump), m.goTo target)

def fails (message : String) : Outcome := (.ok (.finished .Error), { m with lastError := some message })

def throws (e : Exception) : Outcome := (.error e, m)

def callPerform (id : Option SyscallId) (argument : Word) : Outcome :=
  match id with
  | none => m.continues
  | some .Exit => (.ok (.finished .Halt), m.next)
  | some .Yield => (.ok (.finished .Yield), m.next)
  | some .Print =>
    match word? m.data argument.toNat with
    | none => m.throws (outside argument.toNat)
    | some word => continues { m with printed := m.printed ++ [word] }
  | some .Scan =>
    match m.input with
    | [] => m.throws (.vmException "syscall scan: failed to read integer from input")
    | word :: input =>
      -- The number is gone from the input even where there is no room for it.
      if argument.toNat + wordSize ≤ m.data.length then
        continues { m with input := input, data := putWord m.data argument.toNat word }
      else throws { m with input := input } (outside argument.toNat)
  | some .Load =>
    match readPath m.data 256 argument.toNat with
    | .error e => m.throws e
    | .ok path => (.ok (.loading path), m)

/-- What each command does. -/
def perform (m : ProcessModel) : Command → Outcome
  | .mov rd value => (m.write rd (m.read value)).continues
  | .binary operator rd lhs value =>
    match operator.fault? (m.read value) with
    | some message => m.fails message
    | none =>
      ((m.write rd (operator.result (m.gpr lhs) (m.read value))).setFlags
        (operator.flags m.flags (m.gpr lhs) (m.read value))).continues
  | .cmp lhs value => (m.setFlags (.ofDifference (m.gpr lhs) (m.read value))).continues
  | .unary operator rd =>
    ((m.write rd (operator.result (m.gpr rd))).setFlags (operator.flags m.flags (m.gpr rd))).continues
  | .jump condition target => if condition.holds m.flags then m.jumps target else m.continues
  | .load rd offset =>
    match word? m.data offset.toNat with
    | none => m.throws (outside offset.toNat)
    | some word => (m.write rd word).continues
  | .store rd offset =>
    if offset.toNat + wordSize ≤ m.data.length then
      continues { m with data := putWord m.data offset.toNat (m.gpr rd) }
    else m.throws (outside offset.toNat)
  | .push value =>
    if m.stack.length < stackCapacity then continues { m with stack := m.read value :: m.stack }
    else m.fails "stack overflow"
  | .pop rd =>
    match m.stack with
    | [] => m.fails "stack underflow"
    | word :: stack => (write { m with stack := stack } rd word).continues
  | .ret =>
    match m.stack with
    | [] => m.fails "stack underflow"
    | word :: stack => jumps { m with stack := stack } word
  | .halt => (.ok (.finished .Halt), m)
  | .nop => m.continues
  | .call id argument => m.callPerform id argument
  | .unknown => m.throws (.vmException "unknown opcode")

end ProcessModel

end VirtualMachine
