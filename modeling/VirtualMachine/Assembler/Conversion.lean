import VirtualMachine.Assembler.Assembly
import VirtualMachine.Assembler.Grammar

namespace VirtualMachine

/-- An `AssemblerError` with this line. -/
def Carries (line : Nat) (e : Exception) : Prop := ∃ message, e = .assemblerError line message

/-- What the conversions throw: the two exceptions of `std::stol` and
`std::stoi`, and errors with the line zero. -/
def Unlocated (e : Exception) : Prop := e = .invalidArgument ∨ e = .outOfRange ∨ Carries 0 e

namespace Source

open VirtualMachine.Parser

/-- `std::stol` and `std::stoi` throw their own two exceptions, which the parser
passes on as they are, without the line of the token. -/
theorem unlocated_of_stringToInteger {bits : Nat} {text : Text} {e : Exception}
    (failed : stringToInteger bits text = .error e) : Unlocated e := by
  unfold stringToInteger at failed
  split at failed
  · cases failed
    exact .inl rfl
  split at failed
  · cases failed
    exact .inr (.inl rfl)
  · cases failed

/-- A register name is looked up by a function that knows no line: it throws with line
zero or passes on what `std::stoi` throws. -/
theorem unlocated_of_registerIndexFromName {name : Text} {e : Exception}
    (failed : registerIndexFromName name = .error e) : Unlocated e := by
  unfold registerIndexFromName at failed
  split at failed
  · cases failed
    exact .inr (.inr ⟨_, rfl⟩)
  split at failed
  · rename_i index
    cases failed
    exact unlocated_of_stringToInteger index
  split at failed
  · cases failed
    exact .inr (.inr ⟨_, rfl⟩)
  · cases failed

/-- The opcode table knows no line either. -/
theorem unlocated_of_mnemonicToOpcode {name : Text} {e : Exception}
    (failed : OpcodeTable.mnemonicToOpcode name = .error e) : Unlocated e := by
  unfold OpcodeTable.mnemonicToOpcode at failed
  split at failed
  · cases failed
    exact .inr (.inr ⟨_, rfl⟩)
  · cases failed

/-- Nor does the lookup of a system call. -/
theorem unlocated_of_parseSyscall {name : Text} {e : Exception} (failed : parseSyscall name = .error e) :
    Unlocated e := by
  unfold parseSyscall at failed
  repeat' split at failed
  all_goals cases failed
  exact .inr (.inr ⟨_, rfl⟩)

/-- A register in the place of one, but with an index that there is not. -/
def registerFault (tokens : List Token) : Bool :=
  (expect .Register tokens).any (fun read => (register? read.1.text).isNone)

/-- A number in the place of one, but without digits or out of the range of `long`. -/
def numberFault (tokens : List Token) : Bool :=
  (expect .Number tokens).any (fun read => (immediate? read.1.text).isNone)

/-- Where either is in place. -/
def valueFault (tokens : List Token) : Bool := registerFault tokens || numberFault tokens

/-- A fault behind a register and a comma. -/
def faultBehindRegister (fault : List Token → Bool) (tokens : List Token) : Bool :=
  (readOperand tokens).any (fun first => (registerOperand? first.1).isSome && (readComma first.2).any fault)

/-- The name of a system call is looked up by the second pass alone, and behind
its argument. -/
def callFault (emit : Bool) (parser : Parser) (tokens : List Token) : Bool :=
  (expect .Identifier tokens).any (fun name => (readComma name.2).any (fun rest =>
    numberFault rest || ((readOperand rest).any (fun argument => (offset? parser argument.1).isSome) &&
      (syscall? emit name.1.text).isNone)))

/-- The operands of an instruction whose mnemonic is in the opcode table. -/
def operandsFault (opcode : Opcode) (tokens : List Token) : Bool :=
  if isJump opcode then false
  else if isUnary opcode then registerFault tokens
  else if opcode = .LOAD ∨ opcode = .STORE then registerFault tokens || faultBehindRegister numberFault tokens
  else registerFault tokens || faultBehindRegister valueFault tokens

/-- An instruction whose first fault is in such a word. -/
def instructionFault (emit : Bool) (parser : Parser) : List Token → Bool
  | [] => false
  | token :: rest =>
    if token.type ≠ .Identifier then false
    else if token.text = "halt".toList ∨ token.text = "ret".toList then false
    else if token.text = "push".toList then valueFault rest
    else if token.text = "pop".toList then registerFault rest
    else if token.text = "call".toList then callFault emit parser rest
    else
      match opcode? token.text with
      | none => true
      | some opcode => operandsFault opcode rest

/-- A declaration whose type and name are in order and whose value is such a number.
-/
def declarationFault (type : Text) (tokens : List Token) : Bool :=
  (dataType? type).isSome && (expect .Identifier tokens).any (fun name => numberFault name.2)

/-- A statement whose first fault is in such a word. Whether its first token is
a label is seen at the next one, so that there must be one to read, or the end
of the source. -/
def statementFault (emit clean : Bool) (parser : Parser) : List Token → Bool
  | [] => false
  | token :: rest =>
    if token.type ≠ .Identifier ∨ token.text = "DATA".toList ∨ token.text = "CODE".toList then false
    else
      match parser.section_ with
      | .None => false
      | .Data => declarationFault token.text rest
      | .Code => (readColon rest).isNone && (clean || !rest.isEmpty) && instructionFault emit parser (token :: rest)

variable {tokens rest : List Token} {token : Token}

/-- With a register as the next token, the fault is in its index and in nothing else. -/
theorem registerFault_of_expect (found : expect .Register tokens = some (token, rest)) :
    registerFault tokens = (register? token.text).isNone := by
  rw [registerFault, found]
  rfl

theorem registerFault_of_none (missing : expect .Register tokens = none) : registerFault tokens = false := by
  rw [registerFault, missing]
  rfl

/-- With a number as the next token, the fault is in its digits or its range. -/
theorem numberFault_of_expect (found : expect .Number tokens = some (token, rest)) :
    numberFault tokens = (immediate? token.text).isNone := by
  rw [numberFault, found]
  rfl

theorem numberFault_of_none (missing : expect .Number tokens = none) : numberFault tokens = false := by
  rw [numberFault, missing]
  rfl

/-- A token has one type, so whoever finds one type finds no other. -/
theorem expect_of_expect {type type' : TokenType} (different : type ≠ type')
    (found : expect type tokens = some (token, rest)) : expect type' tokens = none := by
  obtain ⟨rfl, same⟩ := eq_cons_of_expect found
  exact expect_of_ne (same ▸ different)

/-- The fault of an instruction, on the token that is its mnemonic: the case split of
`parseInstruction`, in the order of the source. -/
theorem instructionFault_of_expect {emit : Bool} {parser : Parser}
    (found : expect .Identifier tokens = some (token, rest)) :
    instructionFault emit parser tokens =
      if token.text = "halt".toList ∨ token.text = "ret".toList then false
      else if token.text = "push".toList then valueFault rest
      else if token.text = "pop".toList then registerFault rest
      else if token.text = "call".toList then callFault emit parser rest
      else
        match opcode? token.text with
        | none => true
        | some opcode => operandsFault opcode rest := by
  obtain ⟨rfl, type⟩ := eq_cons_of_expect found
  exact if_neg (not_not_intro type)

theorem instructionFault_of_none {emit : Bool} {parser : Parser} (missing : expect .Identifier tokens = none) :
    instructionFault emit parser tokens = false := by
  cases tokens with
  | nil => rfl
  | cons token rest =>
    refine if_pos (fun type => ?_)
    rw [expect_of_eq type] at missing
    cases missing

/-- Nothing holds of the operand that follows, if it holds of no operand that can be
read there. -/
theorem any_readOperand_eq_false {p : Operand × List Token → Bool}
    (nothing : ∀ operand rest, readOperand tokens = some (operand, rest) → p (operand, rest) = false) :
    (readOperand tokens).any p = false := by
  cases read : readOperand tokens with
  | none => rfl
  | some found => exact nothing found.1 found.2 read

/-- An operand that is read as a register of the machine is no fault. -/
theorem registerFault_of_operand {operand : Operand} {rd : Byte} (read : readOperand tokens = some (operand, rest))
    (is : registerOperand? operand = some rd) : registerFault tokens = false := by
  cases found : expect .Register tokens with
  | none => exact registerFault_of_none found
  | some first =>
    cases (readOperand_register found).symm.trans read
    rw [registerOperand?] at is
    rw [registerFault_of_expect found, is]
    rfl

/-- Nor is one that is read as an offset, be it a number or a symbol in brackets. -/
theorem numberFault_of_operand {parser : Parser} {operand : Operand} {offset : Address}
    (read : readOperand tokens = some (operand, rest)) (is : offset? parser operand = some offset) :
    numberFault tokens = false := by
  cases found : expect .Number tokens with
  | none => exact numberFault_of_none found
  | some first =>
    cases (readOperand_number found).symm.trans read
    obtain ⟨imm, converts, _⟩ := Option.map_eq_some_iff.mp is
    rw [numberFault_of_expect found, converts]
    rfl

/-- Without a register in front there is nothing behind one: the parser has stopped
before the comma. -/
theorem faultBehindRegister_of_none {fault : List Token → Bool}
    (nothing : ∀ operand rest, readOperand tokens = some (operand, rest) → registerOperand? operand = none) :
    faultBehindRegister fault tokens = false := by
  refine any_readOperand_eq_false (fun operand rest read => ?_)
  rw [nothing operand rest read]
  rfl

/-- Behind a register in order, the fault is the one behind the comma. -/
theorem faultBehindRegister_of_operand {fault : List Token → Bool} {operand : Operand} {rd : Byte}
    (read : readOperand tokens = some (operand, rest)) (is : registerOperand? operand = some rd) :
    faultBehindRegister fault tokens = (readComma rest).any fault := by
  rw [faultBehindRegister, read, Option.any_some, is]
  rfl

end Source

end VirtualMachine
