import VirtualMachine.Assembler.Syntax
import Mathlib.Data.List.DropRight

namespace VirtualMachine

namespace Source

variable {tokens rest later : List Token} {token : Token}

/-- The next token, if it is of the given type. -/
def expect (type : TokenType) : List Token → Option (Token × List Token)
  | [] => none
  | token :: rest => if token.type = type then some (token, rest) else none

/-- The readers of the grammar take tokens off a list. `expect` is the one they are
all built from, as `consume` is in the parser. -/
theorem expect_of_eq {type : TokenType} {token : Token} {rest : List Token} (same : token.type = type) :
    expect type (token :: rest) = some (token, rest) := if_pos same

theorem expect_of_ne {type : TokenType} {token : Token} {rest : List Token} (different : token.type ≠ type) :
    expect type (token :: rest) = none := if_neg different

/-- What `expect` finds is the head of the list, and it has the type asked for. -/
theorem eq_cons_of_expect {type : TokenType} {token : Token} {rest : List Token}
    (found : expect type tokens = some (token, rest)) : tokens = token :: rest ∧ token.type = type := by
  cases tokens with
  | nil => cases found
  | cons first others =>
    by_cases same : first.type = type
    · rw [expect_of_eq same] at found
      cases found
      exact ⟨rfl, same⟩
    · rw [expect_of_ne same] at found
      cases found

theorem isNewline_iff {token : Token} : isNewline token = true ↔ token.type = .Newline := decide_eq_true_iff

/-- A comma is read for its place only. -/
theorem readComma_eq (tokens : List Token) : readComma tokens = (expect .Comma tokens).map Prod.snd := by
  rcases tokens with _ | ⟨⟨type, text, line⟩, rest⟩
  · rfl
  · cases type <;> rfl

theorem readColon_eq (tokens : List Token) : readColon tokens = (expect .Colon tokens).map Prod.snd := by
  rcases tokens with _ | ⟨⟨type, text, line⟩, rest⟩
  · rfl
  · cases type <;> rfl

/-- An operand in brackets, its first bracket already read. -/
def readMemory (tokens : List Token) : Option (Operand × List Token) :=
  (expect .Identifier tokens).bind (fun symbol =>
    (expect .RBracket symbol.2).map (fun bracket => (.memory symbol.1.text, bracket.2)))

/-- The type of the first token decides which operand is read. -/
theorem readOperand_cons (token : Token) (rest : List Token) :
    readOperand (token :: rest) =
      match token.type with
      | .Register => some (.register token.text, rest)
      | .Number => some (.number token.text, rest)
      | .Identifier => some (.name token.text, rest)
      | .LBracket => readMemory rest
      | _ => none := by
  rcases token with ⟨type, text, line⟩
  cases type
  case LBracket =>
    rcases rest with _ | ⟨⟨type, text, line⟩, _ | ⟨⟨type', text', line'⟩, rest⟩⟩
    · rfl
    · cases type <;> rfl
    · cases type <;> cases type' <;> rfl
  all_goals rfl

/-- The type of the first token of an operand. -/
def operandType : Operand → TokenType
  | .register _ => .Register
  | .number _ => .Number
  | .name _ => .Identifier
  | .memory _ => .LBracket

/-- Conversely, an operand tells the type of the token it starts with. -/
theorem readOperand_type {operand : Operand} {rest : List Token} (read : readOperand tokens = some (operand, rest)) :
    ∃ first others, tokens = first :: others ∧ first.type = operandType operand := by
  cases tokens with
  | nil => cases read
  | cons first others =>
    refine ⟨first, others, rfl, ?_⟩
    rw [readOperand_cons] at read
    split at read
    · rename_i type
      cases read
      exact type
    · rename_i type
      cases read
      exact type
    · rename_i type
      cases read
      exact type
    · rename_i type
      obtain ⟨symbol, _, read⟩ := Option.bind_eq_some_iff.mp read
      obtain ⟨bracket, _, read⟩ := Option.map_eq_some_iff.mp read
      cases read
      exact type
    · cases read

theorem readOperand_register {token : Token} {rest : List Token}
    (found : expect .Register tokens = some (token, rest)) :
    readOperand tokens = some (.register token.text, rest) := by
  obtain ⟨rfl, same⟩ := eq_cons_of_expect found
  rw [readOperand_cons, same]

theorem readOperand_number {token : Token} {rest : List Token} (found : expect .Number tokens = some (token, rest)) :
    readOperand tokens = some (.number token.text, rest) := by
  obtain ⟨rfl, same⟩ := eq_cons_of_expect found
  rw [readOperand_cons, same]

theorem readOperand_name {token : Token} {rest : List Token} (found : expect .Identifier tokens = some (token, rest)) :
    readOperand tokens = some (.name token.text, rest) := by
  obtain ⟨rfl, same⟩ := eq_cons_of_expect found
  rw [readOperand_cons, same]

theorem readOperand_memory {token : Token} {rest : List Token} (found : expect .LBracket tokens = some (token, rest)) :
    readOperand tokens = readMemory rest := by
  obtain ⟨rfl, same⟩ := eq_cons_of_expect found
  rw [readOperand_cons, same]

/-- An operand that is read where a type is missing is of another kind. This turns a
failed `consume` of the parser into a fact about the operand. -/
theorem operandType_ne {type : TokenType} {operand : Operand} {rest : List Token} (missing : expect type tokens = none)
    (read : readOperand tokens = some (operand, rest)) : operandType operand ≠ type := by
  obtain ⟨first, later, rfl, same⟩ := readOperand_type read
  intro type
  rw [expect_of_eq (same.trans type)] at missing
  cases missing

/-- A function that refuses every operand in brackets refuses what is read behind a
bracket. -/
theorem readMemory_bind_none {α : Type} {f : Operand × List Token → Option α}
    (nothing : ∀ symbol rest, readMemory tokens = some (.memory symbol, rest) → f (.memory symbol, rest) = none) :
    (readMemory tokens).bind f = none := by
  cases read : readMemory tokens with
  | none => rfl
  | some found =>
    have memory := read
    obtain ⟨symbol, _, memory⟩ := Option.bind_eq_some_iff.mp memory
    obtain ⟨bracket, _, same⟩ := Option.map_eq_some_iff.mp memory
    cases same
    exact nothing _ _ read

/-- Two operands with a comma between them. -/
def readPair (tokens : List Token) : Option ((Operand × Operand) × List Token) :=
  (readOperand tokens).bind (fun first => (readComma first.2).bind (fun later =>
    (readOperand later).map (fun second => ((first.1, second.1), second.2))))

/-- The specification of what reads two operands, once the first is read. -/
theorem readPair_bind {α : Type} {first : Operand} {later : List Token}
    (read : readOperand tokens = some (first, later))
    (f : (Operand × Operand) × List Token → Option α) :
    (readPair tokens).bind f =
      (readComma later).bind (fun rest => (readOperand rest).bind (fun second => f ((first, second.1), second.2))) := by
  unfold readPair
  rw [read, Option.bind_some, Option.bind_assoc]
  refine congrArg _ (funext fun rest => ?_)
  rw [Option.bind_map]
  rfl

/-- The same for two operands with a comma between them, when the first decides. -/
theorem readPair_bind_none {α : Type} {f : (Operand × Operand) × List Token → Option α}
    (nothing : ∀ first later, readOperand tokens = some (first, later) →
      ∀ second rest, f ((first, second), rest) = none) :
    (readPair tokens).bind f = none := by
  refine Option.bind_eq_none_iff.mpr (fun pair read => ?_)
  obtain ⟨first, found, read⟩ := Option.bind_eq_some_iff.mp read
  obtain ⟨_, _, read⟩ := Option.bind_eq_some_iff.mp read
  obtain ⟨second, _, rfl⟩ := Option.map_eq_some_iff.mp read
  exact nothing first.1 first.2 found second.1 second.2

theorem readOperands_one (tokens : List Token) :
    readOperands 1 tokens = (readOperand tokens).map (fun read => ([read.1], read.2)) := rfl

/-- An instruction with two operands reads a pair. -/
theorem readOperands_two (tokens : List Token) :
    readOperands 2 tokens = (readPair tokens).map (fun read => ([read.1.1, read.1.2], read.2)) := by
  have unfolded : readOperands 2 tokens =
      (readOperand tokens).bind (fun first => (readComma first.2).bind (fun later =>
        (readOperands 1 later).bind (fun others => some (first.1 :: others.1, others.2)))) := rfl
  rw [unfolded, readPair]
  simp only [readOperands_one]
  cases readOperand tokens with
  | none => rfl
  | some first =>
    rw [Option.bind_some, Option.bind_some]
    cases readComma first.2 with
    | none => rfl
    | some later =>
      rw [Option.bind_some, Option.bind_some]
      cases readOperand later <;> rfl

/-- A declaration is a name and a number behind the type. -/
theorem readDeclaration_eq (type : Text) (tokens : List Token) :
    readDeclaration type tokens =
      (expect .Identifier tokens).bind (fun name =>
        (expect .Number name.2).map (fun value => (.declaration type name.1.text value.1.text, value.2))) := by
  rcases tokens with _ | ⟨⟨type, text, line⟩, _ | ⟨⟨type', text', line'⟩, rest⟩⟩
  · rfl
  · cases type <;> rfl
  · cases type <;> cases type' <;> rfl

/-- What a statement is read as if it is not a section name. -/
def readOther (section_ : SourceSection) (token : Token) (rest : List Token) : Option (Statement × List Token) :=
  match section_ with
  | .None => none
  | .Data => readDeclaration token.text rest
  | .Code =>
    match readColon rest with
    | some rest => some (.label token.text, rest)
    | none => (readInstruction (token :: rest)).map (fun read => (.instruction read.1, read.2))

/-- A statement starts with an identifier. The two section names are taken before the
section is asked, as in the loop of the parser. -/
theorem readStatement_cons (section_ : SourceSection) (token : Token) (rest : List Token) :
    readStatement section_ (token :: rest) =
      if token.type ≠ .Identifier then none
      else if token.text = "DATA".toList then (readColon rest).map (fun rest => (.openSection .Data, rest))
      else if token.text = "CODE".toList then (readColon rest).map (fun rest => (.openSection .Code, rest))
      else readOther section_ token rest := rfl

/-- What a reader leaves, and that it has not gone over the end of a line. -/
structure Consumes (tokens rest : List Token) : Prop where
  suffix : rest <:+ tokens
  newlines : tokens.countP isNewline = rest.countP isNewline

theorem Consumes.refl : Consumes tokens tokens := ⟨List.suffix_refl _, rfl⟩

theorem Consumes.trans {later : List Token} (first : Consumes tokens rest) (second : Consumes rest later) :
    Consumes tokens later :=
  ⟨second.suffix.trans first.suffix, first.newlines.trans second.newlines⟩

/-- A reader that takes one token goes over no line if the token is no newline. -/
theorem Consumes.head (visible : token.type ≠ .Newline) : Consumes (token :: rest) rest :=
  ⟨List.suffix_cons _ _, List.countP_cons_of_neg (mt isNewline_iff.mp visible)⟩

/-- No reader but that of blank lines takes a newline: the rest of a statement has as
many of them as were there before. This is why a statement is on one line, and why the
line of a fault can be told from the list alone. -/
theorem expect_consumes {type : TokenType} (visible : type ≠ .Newline)
    (found : expect type tokens = some (token, rest)) :
    Consumes tokens rest := by
  obtain ⟨rfl, same⟩ := eq_cons_of_expect found
  exact .head (same ▸ visible)

theorem readOperand_consumes {operand : Operand} (read : readOperand tokens = some (operand, rest)) :
    Consumes tokens rest := by
  obtain ⟨first, later, rfl, same⟩ := readOperand_type read
  have visible : first.type ≠ .Newline := by
    rw [same]
    cases operand <;> (intro impossible; cases impossible)
  rw [readOperand_cons, same] at read
  cases operand with
  | register _ =>
    cases read
    exact .head visible
  | number _ =>
    cases read
    exact .head visible
  | name _ =>
    cases read
    exact .head visible
  | memory _ =>
    obtain ⟨symbol, named, read⟩ := Option.bind_eq_some_iff.mp read
    obtain ⟨bracket, closes, read⟩ := Option.map_eq_some_iff.mp read
    cases read
    exact (Consumes.head visible).trans
      ((expect_consumes (by decide) named).trans (expect_consumes (by decide) closes))

theorem readOperands_consumes {count : Nat} {read : List Operand × List Token}
    (found : readOperands count tokens = some read) : Consumes tokens read.2 := by
  induction count using Nat.twoStepInduction generalizing tokens read with
  | zero =>
    cases found
    exact .refl
  | one =>
    obtain ⟨one, is, rfl⟩ := Option.map_eq_some_iff.mp found
    exact readOperand_consumes is
  | more count _ ih =>
    obtain ⟨first, is, found⟩ := Option.bind_eq_some_iff.mp found
    obtain ⟨later, comma, found⟩ := Option.bind_eq_some_iff.mp found
    obtain ⟨others, others', found⟩ := Option.bind_eq_some_iff.mp found
    cases found
    rw [readComma_eq] at comma
    obtain ⟨separator, separates, rfl⟩ := Option.map_eq_some_iff.mp comma
    change Consumes tokens others.2
    exact (readOperand_consumes is).trans ((expect_consumes (by decide) separates).trans (ih others'))

theorem readColon_consumes (found : readColon tokens = some rest) : Consumes tokens rest := by
  rw [readColon_eq] at found
  obtain ⟨colon, is, rfl⟩ := Option.map_eq_some_iff.mp found
  exact expect_consumes (by decide) is

/-- A statement starts with an identifier and is on one line. -/
theorem readStatement_consumes {section_ : SourceSection} {read : Statement × List Token}
    (found : readStatement section_ (token :: rest) = some read) : token.type = .Identifier ∧ Consumes rest read.2 := by
  rw [readStatement_cons] at found
  split at found
  · cases found
  rename_i type
  refine ⟨not_not.mp type, ?_⟩
  split at found
  · obtain ⟨later, colon, rfl⟩ := Option.map_eq_some_iff.mp found
    exact readColon_consumes colon
  split at found
  · obtain ⟨later, colon, rfl⟩ := Option.map_eq_some_iff.mp found
    exact readColon_consumes colon
  unfold readOther at found
  split at found
  · cases found
  · rw [readDeclaration_eq] at found
    obtain ⟨name, named, found⟩ := Option.bind_eq_some_iff.mp found
    obtain ⟨value, valued, rfl⟩ := Option.map_eq_some_iff.mp found
    exact (expect_consumes (by decide) named).trans (expect_consumes (by decide) valued)
  · split at found
    · rename_i later colon
      cases found
      exact readColon_consumes colon
    · obtain ⟨⟨instruction, later⟩, spelled, rfl⟩ := Option.map_eq_some_iff.mp found
      obtain ⟨type', text, line⟩ := token
      cases (not_not.mp type : type' = .Identifier)
      obtain ⟨operands, are, same⟩ := Option.map_eq_some_iff.mp spelled
      cases same
      exact readOperands_consumes are

/-- So many operands are read as are asked for. -/
theorem readOperands_length {count : Nat} {read : List Operand × List Token}
    (found : readOperands count tokens = some read) : read.1.length = count := by
  induction count using Nat.twoStepInduction generalizing tokens read with
  | zero =>
    cases found
    rfl
  | one =>
    obtain ⟨one, is, rfl⟩ := Option.map_eq_some_iff.mp found
    rfl
  | more count _ ih =>
    obtain ⟨first, is, found⟩ := Option.bind_eq_some_iff.mp found
    obtain ⟨later, comma, found⟩ := Option.bind_eq_some_iff.mp found
    obtain ⟨others, others', found⟩ := Option.bind_eq_some_iff.mp found
    cases found
    exact congrArg (· + 1) (ih others')

/-- An instruction is read with as many operands as its mnemonic takes. -/
theorem readStatement_arity {section_ : SourceSection} {instruction : Instruction}
    (found : readStatement section_ (token :: rest) = some (.instruction instruction, later)) :
    instruction.operands.length = arity instruction.mnemonic := by
  rw [readStatement_cons] at found
  split at found
  · cases found
  rename_i type
  split at found
  · obtain ⟨later, colon, same⟩ := Option.map_eq_some_iff.mp found
    cases same
  split at found
  · obtain ⟨later, colon, same⟩ := Option.map_eq_some_iff.mp found
    cases same
  unfold readOther at found
  split at found
  · cases found
  · rw [readDeclaration_eq] at found
    obtain ⟨name, named, found⟩ := Option.bind_eq_some_iff.mp found
    obtain ⟨value, valued, same⟩ := Option.map_eq_some_iff.mp found
    cases same
  · split at found
    · cases found
    · obtain ⟨⟨read, after⟩, spelled, same⟩ := Option.map_eq_some_iff.mp found
      cases same
      obtain ⟨type', text, line⟩ := token
      cases (not_not.mp type : type' = .Identifier)
      obtain ⟨operands, are, same⟩ := Option.map_eq_some_iff.mp spelled
      cases same
      exact readOperands_length are

/-- The readers of whole programs skip the newlines between statements, so they stop
where only newlines are left. -/
theorem readStatements_nil {fuel : Nat} {section_ : SourceSection} (ended : tokens.dropWhile isNewline = []) :
    readStatements fuel section_ tokens = some [] := by
  unfold readStatements
  rw [ended]

/-- One statement, and the rest in the section it leaves behind. -/
theorem readStatements_cons {fuel : Nat} {section_ : SourceSection}
    (here : tokens.dropWhile isNewline = token :: rest) :
    readStatements (fuel + 1) section_ tokens =
      (readStatement section_ (token :: rest)).bind (fun read =>
        (readStatements fuel (read.1.sectionAfter section_) read.2).map (read.1 :: ·)) := by
  conv_lhs =>
    unfold readStatements
    rw [here]
  change (readStatement section_ (token :: rest)).bind (fun read =>
    (readStatements fuel (read.1.sectionAfter section_) read.2).bind (fun later => some (read.1 :: later))) = _
  refine congrArg _ (funext fun read => ?_)
  cases readStatements fuel (read.1.sectionAfter section_) read.2 <;> rfl

/-- Newlines in front of a program change nothing. -/
theorem readStatements_dropWhile {fuel : Nat} {section_ : SourceSection} :
    readStatements fuel section_ (tokens.dropWhile isNewline) = readStatements fuel section_ tokens := by
  have same : (tokens.dropWhile isNewline).dropWhile isNewline = tokens.dropWhile isNewline :=
    List.dropWhile_idempotent _ _
  unfold readStatements
  rw [same]

/-- Every instruction of a program has the operands of its mnemonic. -/
theorem readStatements_arity {fuel : Nat} {section_ : SourceSection} {statements : List Statement}
    (found : readStatements fuel section_ tokens = some statements) {instruction : Instruction}
    (member : .instruction instruction ∈ statements) : instruction.operands.length = arity instruction.mnemonic := by
  induction fuel generalizing tokens section_ statements with
  | zero =>
    cases here : tokens.dropWhile isNewline with
    | nil =>
      rw [readStatements_nil here] at found
      cases found
      cases member
    | cons token rest =>
      unfold readStatements at found
      rw [here] at found
      cases found
  | succ fuel ih =>
    cases here : tokens.dropWhile isNewline with
    | nil =>
      rw [readStatements_nil here] at found
      cases found
      cases member
    | cons token rest =>
      rw [readStatements_cons here] at found
      obtain ⟨⟨statement, after⟩, read, found⟩ := Option.bind_eq_some_iff.mp found
      obtain ⟨others, spelled, rfl⟩ := Option.map_eq_some_iff.mp found
      rcases List.mem_cons.mp member with rfl | member
      · exact readStatement_arity read
      · exact ih spelled member

/-- Every instruction that is read from a source has the operands of its mnemonic, so
a meaning can be looked up by their number. -/
theorem read_arity {source : Text} {statements : List Statement} (read : Source.read source = some statements)
    {instruction : Instruction} (member : .instruction instruction ∈ statements) :
    instruction.operands.length = arity instruction.mnemonic := by
  obtain ⟨tokens, -, spelled⟩ := Option.bind_eq_some_iff.mp read
  exact readStatements_arity spelled member

end Source

end VirtualMachine
