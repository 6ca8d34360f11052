import VirtualMachine.Assembler.Syntax

namespace VirtualMachine

namespace Source

open VirtualMachine.Parser

def register? (name : Text) : Option Byte := (registerIndexFromName name).toOption

def immediate? (literal : Text) : Option (BitVec 16) := (stol literal).toOption.map (BitVec.ofInt 16)

def opcode? (mnemonic : Text) : Option Opcode := (OpcodeTable.mnemonicToOpcode mnemonic).toOption

def symbolOffset? (parser : Parser) (name : Text) : Option Address :=
  (parser.dataSymbols.find? (fun symbol => symbol.name == name)).map DataSymbol.offset

/-- The first pass looks up no label; its words are dropped. -/
def target? (emit : Bool) (parser : Parser) (label : Text) : Option Address :=
  if emit then parser.labels label else some 0

/-- Nor does it look at the name of a system call. -/
def syscall? (emit : Bool) (name : Text) : Option SyscallId :=
  if emit then (parseSyscall name).toOption else some .Print

def offset? (parser : Parser) : Operand → Option Address
  | .memory symbol => symbolOffset? parser symbol
  | .number literal => (immediate? literal).map (fun imm => imm.signExtend 32)
  | _ => none

def registerOperand? : Operand → Option Byte
  | .register name => register? name
  | _ => none

/-- `halt` and `ret`. -/
def bareWord? (mnemonic : Text) : Option Word :=
  if mnemonic = "halt".toList then some (encodeInstruction Opcode.HALT.toByte 0 0 0 0)
  else if mnemonic = "ret".toList then some (encodeInstruction Opcode.RET.toByte 0 0 0 0)
  else none

def pushWord? (emit : Bool) (parser : Parser) : Operand → Option Word
  | .register name => (register? name).map (fun rd => encodeRegReg .PUSH rd rd rd)
  | .name label => (target? emit parser label).map (fun target => encodeRegImm .PUSH 0 0 (target.setWidth 16))
  | .number literal => (immediate? literal).map (encodeRegImm .PUSH 0 0)
  | .memory _ => none

def jumpWord? (emit : Bool) (parser : Parser) (opcode : Opcode) : Operand → Option Word
  | .name label => (target? emit parser label).map (encodeJump opcode)
  | _ => none

/-- `pop`, `inc`, `dec` and `not`. -/
def unaryWord? (opcode : Opcode) (operand : Operand) : Option Word :=
  (registerOperand? operand).map (fun rd => encodeInstruction opcode.toByte rd 0 0 0)

def oneOperandWord? (emit : Bool) (parser : Parser) (mnemonic : Text) (operand : Operand) : Option Word :=
  if mnemonic = "push".toList then pushWord? emit parser operand
  else if mnemonic = "pop".toList then unaryWord? .POP operand
  else do
    let opcode ← opcode? mnemonic
    if isJump opcode then jumpWord? emit parser opcode operand
    else if isUnary opcode then unaryWord? opcode operand
    else none

def callWord? (emit : Bool) (parser : Parser) (argument : Operand) : Operand → Option Word
  | .name name => do
    let offset ← offset? parser argument
    let syscall ← syscall? emit name
    return encodeCall syscall offset
  | _ => none

def transferWord? (parser : Parser) (opcode : Opcode) (rd : Byte) (operand : Operand) : Option Word :=
  (offset? parser operand).map (fun offset => encodeInstruction opcode.toByte rd 0 0 (offset.setWidth 16))

/-- `mov`, the arithmetic and logic instructions, `cmp`, and `nop`, which has
no rule of its own. Only the second pass minds a memory operand of the others. -/
def operationWord? (emit : Bool) (parser : Parser) (opcode : Opcode) (rd : Byte) : Operand → Option Word
  | .register name =>
    (register? name).map (fun rs => if opcode = .MOV then encodeRegReg opcode rd rs rs
      else encodeRegReg opcode rd rd rs)
  | .number literal =>
    (immediate? literal).map (fun imm =>
      if opcode = .MOV then encodeMov rd kImmediateMarker imm
      else if opcode = .CMP then encodeRegImm opcode 0 rd imm
      else encodeRegImm opcode rd rd imm)
  | .memory symbol =>
    if opcode = .MOV ∨ emit = false then transferWord? parser .LOAD rd (.memory symbol) else none
  | .name _ => none

def twoOperandsWord? (emit : Bool) (parser : Parser) (mnemonic : Text) (first second : Operand) : Option Word :=
  if mnemonic = "call".toList then callWord? emit parser second first
  else do
    let opcode ← opcode? mnemonic
    let rd ← registerOperand? first
    if opcode = .LOAD ∨ opcode = .STORE then transferWord? parser opcode rd second
    else operationWord? emit parser opcode rd second

/-- The word of an instruction, with the labels and symbols the parser knows. -/
def Instruction.word? (emit : Bool) (parser : Parser) (instruction : Instruction) : Option Word :=
  match instruction.operands with
  | [] => bareWord? instruction.mnemonic
  | [operand] => oneOperandWord? emit parser instruction.mnemonic operand
  | [first, second] => twoOperandsWord? emit parser instruction.mnemonic first second
  | _ => none

def afterWord (emit : Bool) (parser : Parser) (word : Word) : Parser :=
  { parser with
    codeAddress := parser.codeAddress + 1
    code := if emit then parser.code ++ [word] else parser.code }

def dataType? (type : Text) : Option DataType := (dataTypeFromName { text := type }).toOption

/-- What is left of the parser's members after a statement. -/
def Statement.perform (emit : Bool) (parser : Parser) : Statement → Option Parser
  | .openSection target => some { parser with section_ := target }
  | .declaration type name literal => do
    let dataType ← dataType? type
    let value ← immediate? literal
    return if emit then parser
      else { parser with
        dataSymbols := parser.dataSymbols ++
          [{ name := name, type := dataType, value := value.signExtend 64, offset := parser.dataOffset }]
        dataOffset := parser.dataOffset + BitVec.ofNat 32 (dataTypeSize dataType) }
  | .label name =>
    some { parser with labels := Function.update parser.labels name (some parser.codeAddress) }
  | .instruction read => (read.word? emit parser).map (afterWord emit parser)

/-- A pass over the statements, from no section. -/
def pass (emit : Bool) (parser : Parser) (statements : List Statement) : Option Parser :=
  statements.foldlM (Statement.perform emit) { parser with section_ := .None }

/-- The two passes over the statements of a source. -/
def translate (statements : List Statement) : Option AssembledProgram := do
  let first ← pass false { lexer := { source := [] } } statements
  let second ← pass true { first with codeAddress := 0, code := [] } statements
  return { code := second.code, data := first.dataImage }

end Source

end VirtualMachine
