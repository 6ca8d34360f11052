import VirtualMachine.Assembler.Lexer
import VirtualMachine.Library.LittleEndian

namespace VirtualMachine

open LittleEndian

inductive DataType
  | Byte | DByte | Word | QWord
  deriving DecidableEq, Repr

structure DataSymbol where
  name : Text
  type : DataType
  value : BitVec 64
  offset : Address
  deriving DecidableEq, Repr

structure AssembledProgram where
  code : List Word := []
  data : List Byte := []
  deriving DecidableEq, Repr

/-- `Parser::Section`. -/
inductive SourceSection
  | None | Data | Code
  deriving DecidableEq, Repr

/-- The members of the parser, with the lexer and the code vector that its
functions take by reference. -/
structure Parser where
  lexer : Lexer
  section_ : SourceSection := .None
  codeAddress : Address := 0
  dataOffset : Address := 0
  labels : Text → Option Address := fun _ => none
  dataSymbols : List DataSymbol := []
  code : List Word := []

abbrev Parse := EStateM Exception Parser

/-- The value of `std::stoi` and `std::stol` before the range check, for the
texts the lexer makes: an optional sign and digits. -/
def decimalValue (digits : Text) : Nat :=
  digits.foldl (fun value digit => 10 * value + (digit.toNat - '0'.toNat)) 0

def literalValue : Text → Int
  | '-' :: digits => -(decimalValue digits : Int)
  | digits => decimalValue digits

def hasDigits : Text → Bool
  | '-' :: digits => !digits.isEmpty
  | digits => !digits.isEmpty

/-- `std::stol` and `std::stoi`, on a type of `bits` bits. -/
def stringToInteger (bits : Nat) (text : Text) : Except Exception Int :=
  if !hasDigits text then .error .invalidArgument
  else if literalValue text < -2 ^ (bits - 1) ∨ 2 ^ (bits - 1) ≤ literalValue text then .error .outOfRange
  else .ok (literalValue text)

def stol : Text → Except Exception Int := stringToInteger 64

def stoi : Text → Except Exception Int := stringToInteger 32

def registerIndexFromName (name : Text) : Except Exception Byte :=
  if name.length < 2 ∨ name.head? ≠ some 'r' then
    .error (.assemblerError 0 ("invalid register name: " ++ String.ofList name))
  else
    match stoi name.tail with
    | .error e => .error e
    | .ok index =>
      if index < 0 ∨ (kRegisterCount : Int) ≤ index then
        .error (.assemblerError 0 ("register out of range: " ++ String.ofList name))
      else .ok (BitVec.ofInt 8 index)

def OpcodeTable.mapping : List (Text × Opcode) :=
  [("mov".toList, .MOV), ("add".toList, .ADD), ("sub".toList, .SUB), ("mul".toList, .MUL),
    ("div".toList, .DIV), ("mod".toList, .MOD), ("inc".toList, .INC), ("dec".toList, .DEC),
    ("and".toList, .AND), ("or".toList, .OR), ("xor".toList, .XOR), ("not".toList, .NOT),
    ("cmp".toList, .CMP), ("jmp".toList, .JMP), ("je".toList, .JE), ("jne".toList, .JNE),
    ("jg".toList, .JG), ("jge".toList, .JGE), ("jl".toList, .JL), ("jle".toList, .JLE),
    ("load".toList, .LOAD), ("store".toList, .STORE), ("push".toList, .PUSH), ("pop".toList, .POP),
    ("ret".toList, .RET), ("halt".toList, .HALT), ("nop".toList, .NOP)]

def OpcodeTable.mnemonicToOpcode (name : Text) : Except Exception Opcode :=
  match OpcodeTable.mapping.lookup name with
  | none => .error (.assemblerError 0 ("unknown opcode: " ++ String.ofList name))
  | some opcode => .ok opcode

namespace Parser

def encodeMov (rd rsOrImmMarker : Byte) (imm : BitVec 16) : Word :=
  encodeInstruction Opcode.MOV.toByte rd 0 rsOrImmMarker imm

def encodeRegReg (opcode : Opcode) (rd rs1 rs2 : Byte) : Word := encodeInstruction opcode.toByte rd rs1 rs2 0

def encodeRegImm (opcode : Opcode) (rd rs1 : Byte) (imm : BitVec 16) : Word :=
  encodeInstruction opcode.toByte rd rs1 kImmediateMarker imm

def encodeJump (opcode : Opcode) (target : Address) : Word :=
  encodeInstruction opcode.toByte 0 0 0 (target.setWidth 16)

def encodeCall (syscall : SyscallId) (arg : Address) : Word :=
  encodeInstruction Opcode.CALL.toByte 0 syscall.toByte 0 (arg.setWidth 16)

def parseRegisterToken (token : Token) : Except Exception Byte :=
  if token.type ≠ .Register then .error (.assemblerError token.line "expected register")
  else registerIndexFromName token.text

def parseNumberToken (token : Token) : Except Exception (BitVec 16) :=
  if token.type ≠ .Number then .error (.assemblerError token.line "expected number")
  else (stol token.text).map (fun value => BitVec.ofInt 16 value)

def resolveLabel (parser : Parser) (label : Text) (line : Nat) : Except Exception Address :=
  match parser.labels label with
  | none => .error (.assemblerError line ("unknown label: " ++ String.ofList label))
  | some address => .ok address

def resolveDataSymbol (parser : Parser) (name : Text) (line : Nat) : Except Exception Address :=
  match parser.dataSymbols.find? (fun symbol => symbol.name == name) with
  | none => .error (.assemblerError line ("unknown data symbol: " ++ String.ofList name))
  | some symbol => .ok symbol.offset

def parseSyscall (name : Text) : Except Exception SyscallId :=
  if name = "print".toList then .ok .Print
  else if name = "scan".toList then .ok .Scan
  else if name = "exit".toList then .ok .Exit
  else if name = "yield".toList then .ok .Yield
  else if name = "load".toList then .ok .Load
  else .error (.assemblerError 0 ("unknown syscall: " ++ String.ofList name))

def dataTypeSize : DataType → Nat
  | .Byte => 1
  | .DByte => 2
  | .Word => 4
  | .QWord => 8

def dataTypeFromName (token : Token) : Except Exception DataType :=
  if token.text = "BYTE".toList then .ok .Byte
  else if token.text = "DBYTE".toList then .ok .DByte
  else if token.text = "WORD".toList then .ok .Word
  else if token.text = "QWORD".toList then .ok .QWord
  else .error (.assemblerError token.line ("unknown data type: " ++ String.ofList token.text))

def lift {α : Type} (result : Except Exception α) : Parse α :=
  match result with
  | .error e => throw e
  | .ok value => pure value

def nextToken : Parse Token := fun parser =>
  match parser.lexer.next with
  | .error e => .error e parser
  | .ok (token, lexer) => .ok token { parser with lexer := lexer }

def peekToken : Parse Token := fun parser =>
  match parser.lexer.peek with
  | .error e => .error e parser
  | .ok (token, lexer) => .ok token { parser with lexer := lexer }

def markLexer : Parse Nat := do return (← get).lexer.mark

def restoreLexer (mark : Nat) : Parse Unit :=
  modify (fun parser => { parser with lexer := parser.lexer.restore mark })

def consume (type : TokenType) : Parse Token := do
  let token ← nextToken
  if token.type ≠ type then
    throw (.assemblerError token.line ("unexpected token: " ++ String.ofList token.text))
  return token

def match_ (type : TokenType) : Parse Bool := do
  if (← peekToken).type = type then
    let _ ← nextToken
    return true
  else return false

def skipNewlinesLoop : Nat → Parse Unit
  | 0 => throw .diverged
  | fuel + 1 => do
    if ← match_ .Newline then skipNewlinesLoop fuel

/-- Each newline skipped is a character of the source, so its length bounds
the number of rounds. -/
def skipNewlines : Parse Unit := do skipNewlinesLoop ((← get).lexer.source.length + 1)

/-- `if (emit) code.push_back(word)`. -/
def emitWord (emit : Bool) (word : Word) : Parse Unit :=
  modify (fun parser => if emit then { parser with code := parser.code ++ [word] } else parser)

/-- `++codeAddress_; skipNewlines(lexer)`. -/
def endInstruction : Parse Unit := do
  modify (fun parser => { parser with codeAddress := parser.codeAddress + 1 })
  skipNewlines

def parseRegister : Parse Byte := do lift (parseRegisterToken (← consume .Register))

def dataSymbolAddress (token : Token) : Parse Address := do
  lift ((← get).resolveDataSymbol token.text token.line)

def labelAddress (token : Token) : Parse Address := do lift ((← get).resolveLabel token.text token.line)

def parsePush (emit : Bool) : Parse Unit := do
  if (← peekToken).type = .Register then
    let rd ← parseRegister
    emitWord emit (encodeRegReg .PUSH rd rd rd)
  else if (← peekToken).type = .Identifier then
    let labelToken ← consume .Identifier
    if emit then
      let target ← labelAddress labelToken
      emitWord emit (encodeRegImm .PUSH 0 0 (target.setWidth 16))
  else
    let numberToken ← consume .Number
    let imm ← lift (parseNumberToken numberToken)
    emitWord emit (encodeRegImm .PUSH 0 0 imm)
  endInstruction

/-- `[symbol]` or a number, as the operand of `call`, `load` and `store`. -/
def parseOffset : Parse Address := do
  if ← match_ .LBracket then
    let symToken ← consume .Identifier
    let offset ← dataSymbolAddress symToken
    let _ ← consume .RBracket
    return offset
  else
    let numToken ← consume .Number
    let value ← lift (parseNumberToken numToken)
    return value.signExtend 32

def parseCall (emit : Bool) : Parse Unit := do
  let syscallToken ← consume .Identifier
  let _ ← consume .Comma
  let arg ← parseOffset
  if emit then
    let syscall ← lift (parseSyscall syscallToken.text)
    emitWord emit (encodeCall syscall arg)
  endInstruction

def parseJump (emit : Bool) (opcode : Opcode) : Parse Unit := do
  let labelToken ← consume .Identifier
  if emit then
    let target ← labelAddress labelToken
    emitWord emit (encodeJump opcode target)
  endInstruction

/-- `pop`, `inc`, `dec` and `not`. -/
def parseUnary (emit : Bool) (opcode : Opcode) : Parse Unit := do
  let rd ← parseRegister
  emitWord emit (encodeInstruction opcode.toByte rd 0 0 0)
  endInstruction

/-- `load` and `store`. -/
def parseLoadStore (emit : Bool) (opcode : Opcode) : Parse Unit := do
  let rd ← parseRegister
  let _ ← consume .Comma
  let offset ← parseOffset
  emitWord emit (encodeInstruction opcode.toByte rd 0 0 (offset.setWidth 16))
  endInstruction

def parseTwoOperands (emit : Bool) (opcode : Opcode) : Parse Unit := do
  let rd ← parseRegister
  let _ ← consume .Comma
  if (← peekToken).type = .Register then
    let rs ← parseRegister
    emitWord emit (if opcode = .MOV then encodeRegReg opcode rd rs rs else encodeRegReg opcode rd rd rs)
  else if ← match_ .LBracket then
    let symToken ← consume .Identifier
    let offset ← dataSymbolAddress symToken
    let _ ← consume .RBracket
    if emit then
      if opcode = .MOV then emitWord emit (encodeInstruction Opcode.LOAD.toByte rd 0 0 (offset.setWidth 16))
      else throw (.assemblerError symToken.line "memory operand not supported for this opcode")
  else
    let immToken ← consume .Number
    let imm ← lift (parseNumberToken immToken)
    emitWord emit
      (if opcode = .MOV then encodeMov rd kImmediateMarker imm
      else if opcode = .CMP then encodeRegImm opcode 0 rd imm
      else encodeRegImm opcode rd rd imm)
  endInstruction

def isJump (opcode : Opcode) : Bool :=
  opcode = .JMP || opcode = .JE || opcode = .JNE || opcode = .JG || opcode = .JGE || opcode = .JL || opcode = .JLE

def isUnary (opcode : Opcode) : Bool := opcode = .INC || opcode = .DEC || opcode = .NOT

def parseInstruction (emit : Bool) : Parse Unit := do
  let opcodeToken ← consume .Identifier
  let opcodeName := opcodeToken.text
  if opcodeName = "halt".toList then
    emitWord emit (encodeInstruction Opcode.HALT.toByte 0 0 0 0)
    endInstruction
  else if opcodeName = "ret".toList then
    emitWord emit (encodeInstruction Opcode.RET.toByte 0 0 0 0)
    endInstruction
  else if opcodeName = "push".toList then parsePush emit
  else if opcodeName = "pop".toList then parseUnary emit .POP
  else if opcodeName = "call".toList then parseCall emit
  else
    let opcode ← lift (OpcodeTable.mnemonicToOpcode opcodeName)
    if isJump opcode then parseJump emit opcode
    else if isUnary opcode then parseUnary emit opcode
    else if opcode = .LOAD then parseLoadStore emit .LOAD
    else if opcode = .STORE then parseLoadStore emit .STORE
    else parseTwoOperands emit opcode

def enterSection (target : SourceSection) : Parse Unit := do
  let _ ← consume .Colon
  modify (fun parser => { parser with section_ := target })
  skipNewlines

/-- A data declaration, its first token already read. -/
def parseDeclaration (emit : Bool) (token : Token) : Parse Unit := do
  if token.type ≠ .Identifier then throw (.assemblerError token.line "expected data type")
  let dataType ← lift (dataTypeFromName token)
  let nameToken ← consume .Identifier
  let valueToken ← consume .Number
  let value ← lift (parseNumberToken valueToken)
  if !emit then
    modify (fun parser => { parser with
      dataSymbols := parser.dataSymbols ++
        [{ name := nameToken.text, type := dataType, value := value.signExtend 64, offset := parser.dataOffset }]
      dataOffset := parser.dataOffset + BitVec.ofNat 32 (dataTypeSize dataType) })
  skipNewlines

/-- A label definition or an instruction, its first token already read from
`statementStart`. -/
def parseCodeStatement (emit : Bool) (statementStart : Nat) (token : Token) : Parse Unit := do
  let labelled ← if token.type = .Identifier then do pure ((← peekToken).type = .Colon : Bool) else pure false
  if labelled then
    let _ ← nextToken
    modify (fun parser => { parser with
      labels := Function.update parser.labels token.text (some parser.codeAddress) })
    skipNewlines
  else
    restoreLexer statementStart
    parseInstruction emit

/-- One round of the loop of `parseProgram`, from `lexer.mark()` on. -/
def parseStatement (emit : Bool) : Parse Unit := do
  let statementStart ← markLexer
  let token ← nextToken
  if token.type = .Identifier ∧ token.text = "DATA".toList then enterSection .Data
  else if token.type = .Identifier ∧ token.text = "CODE".toList then enterSection .Code
  else
    match (← get).section_ with
    | .Data => parseDeclaration emit token
    | .Code => parseCodeStatement emit statementStart token
    | .None => throw (.assemblerError token.line "expected DATA or CODE section")

def parseProgramLoop (emit : Bool) : Nat → Parse Unit
  | 0 => throw .diverged
  | fuel + 1 => do
    if (← peekToken).type ≠ .End then
      skipNewlines
      if (← peekToken).type ≠ .End then
        parseStatement emit
        parseProgramLoop emit fuel

/-- Each round reads a token, so the length of the source bounds their number. -/
def parseProgram (emit : Bool) : Parse Unit := do
  modify (fun parser => { parser with section_ := .None })
  skipNewlines
  parseProgramLoop emit ((← get).lexer.source.length + 1)

def storeBytes (data : List Byte) (offset count : Nat) (byte : Nat → Byte) : List Byte :=
  (List.range count).foldl (fun data i => data.set (offset + i) (byte i)) data

def storeSymbol (data : List Byte) (symbol : DataSymbol) : List Byte :=
  match symbol.type with
  | .Byte => storeBytes data symbol.offset.toNat 1 (byteOf symbol.value)
  | .DByte => storeBytes data symbol.offset.toNat 2 (byteOf (symbol.value.setWidth 16))
  | .Word => storeBytes data symbol.offset.toNat 4 (byteOf (symbol.value.setWidth 32))
  | .QWord => storeBytes data symbol.offset.toNat 8 (byteOf symbol.value)

def dataImage (parser : Parser) : List Byte :=
  parser.dataSymbols.foldl storeSymbol (List.replicate parser.dataOffset.toNat 0)

def firstPass : Parse Unit := parseProgram false

def secondPass : Parse AssembledProgram := do
  modify (fun parser => { parser with codeAddress := 0, code := [] })
  let data := (← get).dataImage
  parseProgram true
  return { code := (← get).code, data := data }

/-- `parse`, on the members an earlier call has left. -/
def parse (parser : Parser) (source : Text) : EStateM.Result Exception Parser AssembledProgram :=
  let program : Parse AssembledProgram := do
    firstPass
    modify (fun parser => { parser with
      lexer := parser.lexer.reset, section_ := .None, codeAddress := 0, code := [] })
    secondPass
  program { parser with
    lexer := { source := source }, section_ := .None, codeAddress := 0, dataOffset := 0
    labels := fun _ => none, dataSymbols := [], code := [] }

end Parser

/-- `Assembler::assemble` on a new assembler. -/
def assemble (source : Text) : Except Exception AssembledProgram :=
  match Parser.parse { lexer := { source := [] } } source with
  | .ok program _ => .ok program
  | .error e _ => .error e

end VirtualMachine
