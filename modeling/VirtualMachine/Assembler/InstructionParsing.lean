import VirtualMachine.Assembler.TokenParsing

namespace VirtualMachine

namespace Parser

open ErrorState Source

variable {source : Text} {clean : Bool} {parser members : Parser} {tokens : List Token} {ends line : Nat} {blame : Prop}

/-- What is left after an instruction: the word appended if this is the second pass,
the address one further, and the newlines behind it gone. -/
def finish (emit : Bool) (members : Parser) (rest : List Token) (word : Option Word) :
    Option (Unit × Parser × List Token) :=
  word.map (fun word => ((), afterWord emit members word, rest.dropWhile isNewline))

/-- A word that is known ends the instruction. -/
theorem emitWord_finish (emit : Bool) {word : Word} {word? : Option Word} (is : word? = some word)
    (scans : Scans source clean ends line parser (members, tokens)) (blameless : ¬ blame) :
    Through source clean ends line blame ((emitWord emit word >>= fun _ => endInstruction) parser)
      (finish emit members tokens word?) := by
  rw [is]
  exact emitWord_then emit word scans blameless

/-- An instruction whose last operand is a register, from that register on. -/
theorem register_finish {emit : Bool} {word : Byte → Word} {token : Token} {rest : List Token}
    (scans : Scans source clean ends line parser (members, tokens))
    (found : expect .Register tokens = some (token, rest)) :
    Through source clean ends line (registerFault tokens = true)
      ((parseRegister >>= fun rd => emitWord emit (word rd) >>= fun _ => endInstruction) parser)
      (finish emit members rest ((register? token.text).map word)) := by
  rw [registerFault_of_expect found]
  refine parseRegister_bind scans found ?_ ?_
  · intro none
    rw [none]
    exact ⟨rfl, rfl⟩
  · intro rd after is there
    rw [is]
    exact emitWord_finish emit rfl there Bool.false_ne_true

/-- One whose last operand is a number. -/
theorem number_finish {emit : Bool} {word : BitVec 16 → Word} {token : Token} {rest : List Token}
    (found : expect .Number tokens = some (token, rest)) (scans : Scans source clean ends line parser (members, rest)) :
    Through source clean ends line (numberFault tokens = true)
      ((lift (parseNumberToken token) >>= fun imm => emitWord emit (word imm) >>= fun _ => endInstruction) parser)
      (finish emit members rest ((immediate? token.text).map word)) := by
  rw [numberFault_of_expect found]
  refine numberToken_bind found ?_ ?_
  · intro none
    rw [none]
    exact ⟨rfl, rfl⟩
  · intro imm is
    rw [is]
    exact emitWord_finish emit rfl scans Bool.false_ne_true

/-- The second pass looks the label up; an undefined one is reported with the
line of its token. -/
theorem target_finish {word : Address → Word} {token : Token}
    (scans : Scans source clean ends line parser (members, tokens)) (tokenLine : token.line = line) :
    Through source clean ends line (false = true)
      ((labelAddress token >>= fun target => emitWord true (word target) >>= fun _ => endInstruction) parser)
      (finish true members tokens ((target? true members token.text).map word)) := by
  rw [target?, if_pos rfl]
  refine labelAddress_bind scans tokenLine ?_ ?_
  · intro none
    rw [none]
    exact ⟨rfl, Bool.false_ne_true⟩
  · intro target is
    rw [is]
    exact emitWord_finish true rfl scans Bool.false_ne_true

/-- `push` takes a register, a label or a number. The fault of a failing one is in
the register or the number, as a label is no conversion. -/
theorem parsePush_through (emit : Bool) (scans : Scans source clean ends line parser (members, tokens)) :
    Through source clean ends line (valueFault tokens = true) (parsePush emit parser)
      ((readOperand tokens).bind (fun read => finish emit members read.2 (pushWord? emit members read.1))) := by
  unfold parsePush
  have stuck : ∀ (after : Parser) e, tokens = [] → clean = false → Carries line e →
      Through source clean ends line (valueFault tokens = true) (.error e after)
        ((readOperand tokens).bind (fun read => finish emit members read.2 (pushWord? emit members read.1))) := by
    rintro after e rfl _ carries
    exact .fair carries Bool.false_ne_true
  refine peek_if (by decide) scans (stuck _) ?_ ?_
  · intro token rest after found there
    rw [readOperand_register found, Option.bind_some, pushWord?, valueFault,
      numberFault_of_none (expect_of_expect (by decide) found), Bool.or_false]
    exact register_finish there found
  intro after noRegister there
  refine peek_if (by decide) there (stuck _) ?_ ?_
  · intro token rest later found beyond
    rw [readOperand_name found, Option.bind_some, pushWord?, valueFault, registerFault_of_none noRegister,
      numberFault_of_none (expect_of_expect (by decide) found), Bool.or_self]
    refine consume_bind (by decide) beyond (fun missing => by rw [found] at missing; cases missing) ?_
    intro token' rest' last found' tokenLine final
    cases found.symm.trans found'
    cases emit with
    | false => exact endInstruction_through final Bool.false_ne_true
    | true =>
      rw [if_pos rfl]
      exact target_finish final tokenLine
  intro later noName beyond
  refine consume_bind (by decide) beyond ?_ ?_
  · intro noNumber
    rw [valueFault, registerFault_of_none noRegister, numberFault_of_none noNumber]
    refine ⟨Option.bind_eq_none_iff.mpr (fun read is => ?_), Bool.false_ne_true⟩
    obtain ⟨operand, rest⟩ := read
    have notRegister := operandType_ne noRegister is
    have notName := operandType_ne noName is
    have notNumber := operandType_ne noNumber is
    cases operand with
    | register _ => exact absurd rfl notRegister
    | number _ => exact absurd rfl notNumber
    | name _ => exact absurd rfl notName
    | memory _ => rfl
  · intro token rest last found _ final
    rw [readOperand_number found, Option.bind_some, pushWord?, valueFault, registerFault_of_none noRegister,
      Bool.false_or]
    exact number_finish found final

/-- A jump takes a label, so that no conversion is to blame when it fails. -/
theorem parseJump_through (emit : Bool) (opcode : Opcode)
    (scans : Scans source clean ends line parser (members, tokens)) :
    Through source clean ends line (false = true) (parseJump emit opcode parser)
      ((readOperand tokens).bind (fun read => finish emit members read.2 (jumpWord? emit members opcode read.1))) := by
  unfold parseJump
  refine consume_bind (by decide) scans ?_ ?_
  · intro noName
    refine ⟨Option.bind_eq_none_iff.mpr (fun read is => ?_), Bool.false_ne_true⟩
    obtain ⟨operand, rest⟩ := read
    have notName := operandType_ne noName is
    cases operand with
    | register _ => rfl
    | number _ => rfl
    | name _ => exact absurd rfl notName
    | memory _ => rfl
  intro token rest after found tokenLine there
  rw [readOperand_name found, Option.bind_some, jumpWord?]
  cases emit with
  | false => exact endInstruction_through there Bool.false_ne_true
  | true =>
    rw [if_pos rfl]
    exact target_finish there tokenLine

/-- The instructions with one register. -/
theorem parseUnary_through (emit : Bool) (opcode : Opcode)
    (scans : Scans source clean ends line parser (members, tokens)) :
    Through source clean ends line (registerFault tokens = true) (parseUnary emit opcode parser)
      ((readOperand tokens).bind (fun read => finish emit members read.2 (unaryWord? opcode read.1))) := by
  unfold parseUnary
  refine operand_bind (parseRegister_within scans) ?_ ?_
  · intro none
    refine ⟨Option.bind_eq_none_iff.mpr (fun read is => ?_), Iff.rfl⟩
    rw [unaryWord?, none read.1 read.2 is]
    rfl
  · intro operand rest rd after read is there
    rw [read, Option.bind_some, unaryWord?, is, registerFault_of_operand read is]
    exact emitWord_finish emit rfl there Bool.false_ne_true

/-- A comma, and behind it the rest: the fault is the fault of the rest. -/
theorem comma_bind {α : Type} {g : Token → Parse α} {f : List Token → Option (α × Parser × List Token)}
    {fault : List Token → Bool} (scans : Scans source clean ends line parser (members, tokens))
    (go : ∀ comma rest after, Scans source clean ends line after (members, rest) →
      Through source clean ends line (fault rest = true) (g comma after) (f rest)) :
    Through source clean ends line ((readComma tokens).any fault = true) ((consume .Comma >>= g) parser)
      ((readComma tokens).bind f) := by
  refine consume_bind (by decide) scans ?_ ?_
  · intro missing
    rw [readComma_eq, missing]
    exact ⟨rfl, Bool.false_ne_true⟩
  · intro comma rest after found _ there
    rw [readComma_eq, found]
    exact go comma rest after there

/-- `call` takes a name, a comma and an argument. The name is looked up behind the
argument and in the second pass only, which is where its fault comes from. -/
theorem parseCall_through (emit : Bool) (scans : Scans source clean ends line parser (members, tokens)) :
    Through source clean ends line (callFault emit members tokens = true) (parseCall emit parser)
      ((readPair tokens).bind (fun read => finish emit members read.2 (callWord? emit members read.1.2 read.1.1))) := by
  unfold parseCall callFault
  refine consume_bind (by decide) scans ?_ ?_
  · intro noName
    rw [noName]
    refine ⟨readPair_bind_none (fun first later is second rest => ?_), Bool.false_ne_true⟩
    have notName := operandType_ne noName is
    cases first with
    | register _ => rfl
    | number _ => rfl
    | name _ => exact absurd rfl notName
    | memory _ => rfl
  intro token rest after found _ there
  rw [readPair_bind (readOperand_name found), found, Option.any_some]
  refine comma_bind there ?_
  intro comma later beyond last
  refine operand_bind (parseOffset_within last) ?_ ?_
  · intro none
    refine ⟨Option.bind_eq_none_iff.mpr (fun read is => ?_), ?_⟩
    · rw [callWord?, none read.1 read.2 is]
      rfl
    · have noArgument : (readOperand later).any (fun argument => (offset? members argument.1).isSome) = false := by
        refine any_readOperand_eq_false (fun operand rest read => ?_)
        rw [none operand rest read]
        rfl
      rw [noArgument, Bool.false_and, Bool.or_false]
  · intro operand rest' offset final read is final'
    rw [read, Option.bind_some, callWord?, is, numberFault_of_operand read is, Option.any_some, is, Bool.false_or,
      Option.isSome_some, Bool.true_and]
    cases emit with
    | false => exact endInstruction_through final' Bool.false_ne_true
    | true =>
      rw [if_pos rfl]
      refine lift_bind (fun e => unlocated_of_parseSyscall) ?_ ?_
      · intro none
        rw [syscall?, if_pos rfl, none]
        exact ⟨rfl, rfl⟩
      · intro syscall named
        rw [syscall?, if_pos rfl, named]
        exact emitWord_finish true rfl final' Bool.false_ne_true

/-- A register and a comma, as the instructions with two operands read them. -/
theorem register_comma_bind {emit : Bool} {word? : Byte → Operand → Option Word} {g : Byte → Parse Unit}
    {fault : List Token → Bool} (scans : Scans source clean ends line parser (members, tokens))
    (go : ∀ rd rest after, Scans source clean ends line after (members, rest) →
      Through source clean ends line (fault rest = true) (g rd after)
        ((readOperand rest).bind (fun second => finish emit members second.2 (word? rd second.1)))) :
    Through source clean ends line ((registerFault tokens || faultBehindRegister fault tokens) = true)
      ((do
        let rd ← parseRegister
        let _ ← consume .Comma
        g rd) parser)
      ((readPair tokens).bind (fun read => finish emit members read.2
        ((registerOperand? read.1.1).bind (fun rd => word? rd read.1.2)))) := by
  refine operand_bind (parseRegister_within scans) ?_ ?_
  · intro none
    rw [faultBehindRegister_of_none none, Bool.or_false]
    refine ⟨readPair_bind_none (fun first later is second rest => ?_), Iff.rfl⟩
    rw [none first later is]
    rfl
  · intro first later rd after read is there
    rw [readPair_bind read, registerFault_of_operand read is, faultBehindRegister_of_operand read is, Bool.false_or]
    simp only [is, Option.bind_some]
    exact comma_bind there (fun _ rest after beyond => go rd rest after beyond)

/-- `load` and `store` take a register and an offset. -/
theorem parseLoadStore_through (emit : Bool) (opcode : Opcode)
    (scans : Scans source clean ends line parser (members, tokens)) :
    Through source clean ends line ((registerFault tokens || faultBehindRegister numberFault tokens) = true)
      (parseLoadStore emit opcode parser)
      ((readPair tokens).bind (fun read => finish emit members read.2
        ((registerOperand? read.1.1).bind (fun rd => transferWord? members opcode rd read.1.2)))) := by
  unfold parseLoadStore
  refine register_comma_bind scans ?_
  intro rd rest after there
  refine operand_bind (parseOffset_within there) ?_ ?_
  · intro none
    refine ⟨Option.bind_eq_none_iff.mpr (fun second found => ?_), Iff.rfl⟩
    rw [transferWord?, none second.1 second.2 found]
    rfl
  · intro operand rest' offset final read known final'
    rw [read, Option.bind_some, transferWord?, known, numberFault_of_operand read known]
    exact emitWord_finish emit rfl final' Bool.false_ne_true

/-- All other instructions with two operands, `mov` with brackets among them. -/
theorem parseTwoOperands_through (emit : Bool) (opcode : Opcode)
    (scans : Scans source clean ends line parser (members, tokens)) :
    Through source clean ends line ((registerFault tokens || faultBehindRegister valueFault tokens) = true)
      (parseTwoOperands emit opcode parser)
      ((readPair tokens).bind (fun read => finish emit members read.2
        ((registerOperand? read.1.1).bind (fun rd => operationWord? emit members opcode rd read.1.2)))) := by
  unfold parseTwoOperands
  refine register_comma_bind scans ?_
  intro rd rest after last
  have stuck : ∀ (after : Parser) e, rest = [] → clean = false → Carries line e →
      Through source clean ends line (valueFault rest = true) (.error e after)
        ((readOperand rest).bind
          (fun second => finish emit members second.2 (operationWord? emit members opcode rd second.1))) := by
    rintro after e rfl _ carries
    exact .fair carries Bool.false_ne_true
  refine peek_if (by decide) last (stuck _) ?_ ?_
  · intro token others after' found next
    rw [readOperand_register found, Option.bind_some, operationWord?, valueFault,
      numberFault_of_none (expect_of_expect (by decide) found), Bool.or_false]
    exact register_finish next found
  intro after' noRegister next
  refine match_bind (by decide) next (stuck _) ?_ ?_
  · intro token others final found final'
    have bracket := (eq_cons_of_expect found).2
    rw [readOperand_memory found, if_pos rfl, valueFault, registerFault_of_none noRegister,
      numberFault_of_none (expect_of_expect (by decide) found), Bool.or_self]
    refine memory_bind (final'.visible (by rw [bracket]; decide)) Bool.false_ne_true ?_ ?_
    · intro none
      refine readMemory_bind_none (fun symbol rest read => ?_)
      rw [operationWord?, transferWord?, offset?, none symbol rest read]
      split <;> rfl
    · intro symbol bracket rest offset parser' read known symbolLine scans'
      rw [read, Option.bind_some, operationWord?, transferWord?, offset?, known]
      cases emit with
      | false =>
        rw [if_neg (by decide : ¬ false = true), if_pos (Or.inr rfl)]
        exact endInstruction_through scans' Bool.false_ne_true
      | true =>
        rw [if_pos rfl]
        by_cases mov : opcode = .MOV
        · rw [if_pos mov, if_pos (.inl mov)]
          exact emitWord_finish true rfl scans' Bool.false_ne_true
        · rw [if_neg mov, if_neg (by simp [mov])]
          exact .bind_error rfl (.fair ⟨_, by rw [symbolLine]⟩ Bool.false_ne_true)
  · intro final noBracket final'
    rw [if_neg (by decide)]
    refine consume_bind (by decide) final' ?_ ?_
    · intro noNumber
      rw [valueFault, registerFault_of_none noRegister, numberFault_of_none noNumber]
      refine ⟨Option.bind_eq_none_iff.mpr (fun read is => ?_), Bool.false_ne_true⟩
      obtain ⟨operand, rest⟩ := read
      have notRegister := operandType_ne noRegister is
      have notMemory := operandType_ne noBracket is
      have notNumber := operandType_ne noNumber is
      cases operand with
      | register _ => exact absurd rfl notRegister
      | number _ => exact absurd rfl notNumber
      | name _ => rfl
      | memory _ => exact absurd rfl notMemory
    · intro token rest parser' found _ scans'
      rw [readOperand_number found, Option.bind_some, operationWord?, valueFault, registerFault_of_none noRegister,
        Bool.false_or]
      exact number_finish found scans'

/-- What is left after an instruction that the tokens spell. -/
def instructionSpec (emit : Bool) (members : Parser) (tokens : List Token) : Option (Unit × Parser × List Token) :=
  (readInstruction tokens).bind (fun read => finish emit members read.2 (read.1.word? emit members))

variable {token : Token} {rest : List Token} {emit : Bool}

/-- The mnemonic says how many operands are read, and the word is made of them. -/
theorem instructionSpec_eq (found : expect .Identifier tokens = some (token, rest)) :
    instructionSpec emit members tokens =
      (readOperands (arity token.text) rest).bind (fun read =>
        finish emit members read.2 (Instruction.word? emit members ⟨token.text, read.1⟩)) := by
  obtain ⟨rfl, type⟩ := eq_cons_of_expect found
  obtain ⟨type', text, line⟩ := token
  cases type
  have spelled : readInstruction (⟨.Identifier, text, line⟩ :: rest) =
      (readOperands (arity text) rest).map (fun read => (⟨text, read.1⟩, read.2)) := rfl
  rw [instructionSpec, spelled, Option.bind_map]
  rfl

theorem instructionSpec_zero (found : expect .Identifier tokens = some (token, rest)) (none : arity token.text = 0) :
    instructionSpec emit members tokens = finish emit members rest (bareWord? token.text) := by
  rw [instructionSpec_eq found, none]
  rfl

theorem instructionSpec_one (found : expect .Identifier tokens = some (token, rest)) (one : arity token.text = 1) :
    instructionSpec emit members tokens =
      (readOperand rest).bind (fun read =>
        finish emit members read.2 (oneOperandWord? emit members token.text read.1)) := by
  rw [instructionSpec_eq found, one, readOperands_one, Option.bind_map]
  rfl

theorem instructionSpec_two (found : expect .Identifier tokens = some (token, rest)) (two : arity token.text = 2) :
    instructionSpec emit members tokens =
      (readPair rest).bind (fun read =>
        finish emit members read.2 (twoOperandsWord? emit members token.text read.1.1 read.1.2)) := by
  rw [instructionSpec_eq found, two, readOperands_two, Option.bind_map]
  rfl

/-- Without a mnemonic there is no instruction. -/
theorem instructionSpec_none (missing : expect .Identifier tokens = none) :
    instructionSpec emit members tokens = none := by
  rcases tokens with _ | ⟨⟨type, text, line⟩, rest⟩
  · rfl
  · cases type
    case Identifier => cases missing
    all_goals rfl

/-- The number of operands that the grammar gives a mnemonic of the opcode table is
the one that the branch of the parser for its opcode reads. -/
theorem arity_of_opcode {mnemonic : Text} {opcode : Opcode} (known : opcode? mnemonic = some opcode)
    (halt : mnemonic ≠ "halt".toList) (ret : mnemonic ≠ "ret".toList) (push : mnemonic ≠ "push".toList)
    (pop : mnemonic ≠ "pop".toList) :
    arity mnemonic = if isJump opcode || isUnary opcode then 1 else 2 := by
  unfold arity
  rw [if_neg (by simp only [halt, ret, or_self, not_false_eq_true]),
    if_neg (by simp only [push, pop, or_self, not_false_eq_true])]
  unfold opcode? at known
  cases found : OpcodeTable.mnemonicToOpcode mnemonic with
  | error e =>
    rw [found] at known
    cases known
  | ok opcode' =>
    rw [found] at known
    cases known
    rfl

/-- A mnemonic that is not in the table has two operands in the grammar, where it is
given no word. -/
theorem arity_of_unknown {mnemonic : Text} (unknown : opcode? mnemonic = none)
    (halt : mnemonic ≠ "halt".toList) (ret : mnemonic ≠ "ret".toList) (push : mnemonic ≠ "push".toList)
    (pop : mnemonic ≠ "pop".toList) : arity mnemonic = 2 := by
  unfold arity
  rw [if_neg (by simp only [halt, ret, or_self, not_false_eq_true]),
    if_neg (by simp only [push, pop, or_self, not_false_eq_true])]
  unfold opcode? at unknown
  cases found : OpcodeTable.mnemonicToOpcode mnemonic with
  | error e => rfl
  | ok opcode =>
    rw [found] at unknown
    cases unknown

/-- The specification of `parseInstruction`, in both passes: it returns what
`readInstruction` reads there and what `word?` makes of it, and a failure has the
line of the instruction or is the fault of a conversion. -/
theorem parseInstruction_through (scans : Scans source clean ends line parser (members, tokens)) :
    Through source clean ends line (instructionFault emit members tokens = true) (parseInstruction emit parser)
      (instructionSpec emit members tokens) := by
  unfold parseInstruction
  refine consume_bind (by decide) scans ?_ ?_
  · intro missing
    rw [instructionFault_of_none missing]
    exact ⟨instructionSpec_none missing, Bool.false_ne_true⟩
  intro token rest after found _ there
  rw [instructionFault_of_expect found]
  refine .ite (fun halt => ?_) ?_
  · rw [if_pos (.inl halt), instructionSpec_zero found (by rw [halt]; decide)]
    refine emitWord_finish emit ?_ there Bool.false_ne_true
    rw [halt]
    rfl
  intro notHalt
  refine .ite (fun ret => ?_) ?_
  · rw [if_pos (.inr ret), instructionSpec_zero found (by rw [ret]; decide)]
    refine emitWord_finish emit ?_ there Bool.false_ne_true
    rw [ret]
    rfl
  intro notRet
  rw [if_neg (not_or.mpr ⟨notHalt, notRet⟩)]
  refine .ite (fun push => ?_) ?_
  · rw [if_pos push, instructionSpec_one found (by rw [push]; decide), push]
    exact parsePush_through emit there
  intro notPush
  rw [if_neg notPush]
  refine .ite (fun pop => ?_) ?_
  · rw [if_pos pop, instructionSpec_one found (by rw [pop]; decide), pop]
    exact parseUnary_through emit .POP there
  intro notPop
  rw [if_neg notPop]
  refine .ite (fun call => ?_) ?_
  · rw [if_pos call, instructionSpec_two found (by rw [call]; decide), call]
    exact parseCall_through emit there
  intro notCall
  rw [if_neg notCall]
  refine lift_bind (fun e => unlocated_of_mnemonicToOpcode) ?_ ?_
  · intro unknown
    have unknown' : opcode? token.text = none := unknown
    rw [instructionSpec_two found (arity_of_unknown unknown notHalt notRet notPush notPop), unknown']
    refine ⟨Option.bind_eq_none_iff.mpr (fun read _ => ?_), rfl⟩
    rw [twoOperandsWord?, if_neg notCall, unknown']
    rfl
  intro opcode known
  have known' : opcode? token.text = some opcode := known
  have count := arity_of_opcode known notHalt notRet notPush notPop
  have one : ∀ operand, oneOperandWord? emit members token.text operand =
      if isJump opcode then jumpWord? emit members opcode operand
      else if isUnary opcode then unaryWord? opcode operand else none := by
    intro operand
    rw [oneOperandWord?, if_neg notPush, if_neg notPop, known']
    rfl
  have two : ∀ first second, twoOperandsWord? emit members token.text first second =
      (registerOperand? first).bind (fun rd =>
        if opcode = .LOAD ∨ opcode = .STORE then transferWord? members opcode rd second
        else operationWord? emit members opcode rd second) := by
    intro first second
    rw [twoOperandsWord?, if_neg notCall, known']
    rfl
  rw [known']
  dsimp only
  rw [operandsFault]
  refine .ite (fun jump => ?_) ?_
  · rw [if_pos jump, instructionSpec_one found (by rw [count, jump]; rfl)]
    simp only [one, if_pos jump]
    exact parseJump_through emit opcode there
  intro notJump
  rw [if_neg notJump]
  refine .ite (fun unary => ?_) ?_
  · rw [if_pos unary, instructionSpec_one found (by rw [count, unary, Bool.or_true]; rfl)]
    simp only [one, if_neg notJump, if_pos unary]
    exact parseUnary_through emit opcode there
  intro notUnary
  rw [if_neg notUnary,
    instructionSpec_two found (by rw [count, if_neg (by simp only [notJump, notUnary, Bool.or_self]; decide)])]
  simp only [two]
  refine .ite (fun load => ?_) ?_
  · simp only [load, true_or, if_true]
    exact parseLoadStore_through emit .LOAD there
  intro notLoad
  refine .ite (fun store => ?_) ?_
  · simp only [store, or_true, if_true]
    exact parseLoadStore_through emit .STORE there
  · intro notStore
    simp only [notLoad, notStore, or_self, if_false]
    exact parseTwoOperands_through emit opcode there

end Parser

end VirtualMachine
