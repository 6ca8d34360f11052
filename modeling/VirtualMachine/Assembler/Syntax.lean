import VirtualMachine.Assembler.Parser
import VirtualMachine.Assembler.TokenStream

namespace VirtualMachine

/-- An operand as it is spelled; `name` is a label or a system call. -/
inductive Operand
  | register (name : Text)
  | number (literal : Text)
  | name (name : Text)
  | memory (symbol : Text)
  deriving DecidableEq, Repr

namespace Source

structure Instruction where
  mnemonic : Text
  operands : List Operand
  deriving DecidableEq, Repr

inductive Statement
  | openSection (target : SourceSection)
  | declaration (type name literal : Text)
  | label (name : Text)
  | instruction (instruction : Instruction)
  deriving DecidableEq, Repr

/-- How many operands the parser looks for; a mnemonic with no rule of its own
takes two. -/
def arity (mnemonic : Text) : Nat :=
  if mnemonic = "halt".toList ∨ mnemonic = "ret".toList then 0
  else if mnemonic = "push".toList ∨ mnemonic = "pop".toList then 1
  else
    match OpcodeTable.mnemonicToOpcode mnemonic with
    | .error _ => 2
    | .ok opcode => if Parser.isJump opcode || Parser.isUnary opcode then 1 else 2

def readOperand : List Token → Option (Operand × List Token)
  | { type := .Register, text := name, .. } :: rest => some (.register name, rest)
  | { type := .Number, text := literal, .. } :: rest => some (.number literal, rest)
  | { type := .Identifier, text := name, .. } :: rest => some (.name name, rest)
  | { type := .LBracket, .. } :: { type := .Identifier, text := symbol, .. } :: { type := .RBracket, .. } :: rest =>
    some (.memory symbol, rest)
  | _ => none

def readComma : List Token → Option (List Token)
  | { type := .Comma, .. } :: rest => some rest
  | _ => none

/-- Operands separated by commas. -/
def readOperands : Nat → List Token → Option (List Operand × List Token)
  | 0, tokens => some ([], tokens)
  | 1, tokens => (readOperand tokens).map (fun (operand, rest) => ([operand], rest))
  | count + 2, tokens => do
    let (operand, rest) ← readOperand tokens
    let rest ← readComma rest
    let (operands, rest) ← readOperands (count + 1) rest
    return (operand :: operands, rest)

def readInstruction : List Token → Option (Instruction × List Token)
  | { type := .Identifier, text := mnemonic, .. } :: rest =>
    (readOperands (arity mnemonic) rest).map (fun (operands, rest) => (⟨mnemonic, operands⟩, rest))
  | _ => none

def readColon : List Token → Option (List Token)
  | { type := .Colon, .. } :: rest => some rest
  | _ => none

def readDeclaration (type : Text) : List Token → Option (Statement × List Token)
  | { type := .Identifier, text := name, .. } :: { type := .Number, text := literal, .. } :: rest =>
    some (.declaration type name literal, rest)
  | _ => none

/-- The two section names are reserved everywhere; what else a statement can be
depends on the section it is in. -/
def readStatement (section_ : SourceSection) : List Token → Option (Statement × List Token)
  | [] => none
  | token :: rest =>
    if token.type ≠ .Identifier then none
    else if token.text = "DATA".toList then (readColon rest).map (fun rest => (.openSection .Data, rest))
    else if token.text = "CODE".toList then (readColon rest).map (fun rest => (.openSection .Code, rest))
    else
      match section_ with
      | .None => none
      | .Data => readDeclaration token.text rest
      | .Code =>
        match readColon rest with
        | some rest => some (.label token.text, rest)
        | none => (readInstruction (token :: rest)).map (fun (instruction, rest) => (.instruction instruction, rest))

/-- The section the next statement is in. -/
def Statement.sectionAfter (section_ : SourceSection) : Statement → SourceSection
  | .openSection target => target
  | _ => section_

def isNewline (token : Token) : Bool := token.type = .Newline

/-- Newlines separate statements but need not: a statement ends where its
operands do. -/
def readStatements : Nat → SourceSection → List Token → Option (List Statement)
  | fuel, section_, tokens =>
    match fuel, tokens.dropWhile isNewline with
    | _, [] => some []
    | 0, _ => none
    | fuel + 1, tokens => do
      let (statement, rest) ← readStatement section_ tokens
      let statements ← readStatements fuel (statement.sectionAfter section_) rest
      return statement :: statements

/-- The statements a source spells, if it spells any program. -/
def read (source : Text) : Option (List Statement) := do
  let tokens ← Lexer.tokenize source
  readStatements tokens.length .None tokens

example : read "CODE:\nstart: mov r1, -7 # minus seven\njmp start".toList =
    some [.openSection .Code, .label "start".toList,
      .instruction ⟨"mov".toList, [.register "r1".toList, .number "-7".toList]⟩,
      .instruction ⟨"jmp".toList, [.name "start".toList]⟩] := by decide +kernel

end Source

end VirtualMachine
