import VirtualMachine.Assembler.Conversion
import VirtualMachine.Assembler.Lines
import VirtualMachine.Library.ErrorState

namespace VirtualMachine

namespace Parser

open ErrorState Source

/-- The members of the parser but for its lexer. -/
def members (parser : Parser) : Parser := { parser with lexer := { source := [] } }

/-- A parser, and what its members and the tokens that it has still to read are. The
specifications of the parser speak of these two and never of its lexer. -/
structure Represents (source : Text) (clean : Bool) (parser : Parser) (view : Parser × List Token) : Prop where
  here : Lexer.At clean parser.lexer view.2
  source : parser.lexer.source = source
  members : parser.members = view.1

variable {source : Text} {clean : Bool} {parser members : Parser} {tokens : List Token}

/-- A run of the parser, against its specification. A source that the lexer
cannot read to the end may fail early. -/
abbrev Meets {α : Type} (source : Text) (clean : Bool) (result : EStateM.Result Exception Parser α)
    (spec : Option (α × Parser × List Token)) : Prop :=
  Agrees (clean = false) (Represents source clean) result spec

/-- A step of the lexer alone leaves the members as they are. -/
theorem Represents.with_lexer {lexer : Lexer} (represents : Represents source clean parser (members, tokens))
    {rest : List Token} (here : Lexer.At clean lexer rest) (same : lexer.source = parser.lexer.source) :
    Represents source clean { parser with lexer := lexer } (members, rest) :=
  ⟨here, same.trans represents.source, represents.members⟩

/-- A parser that is on a line, and the line on which its tokens end. -/
structure Scans (source : Text) (clean : Bool) (ends line : Nat) (parser : Parser) (view : Parser × List Token) : Prop
    extends Represents source clean parser view where
  onLine : parser.lexer.line = line
  ending : line + view.2.countP isNewline = ends

/-- Every parser is on the line of its lexer. The line on which its tokens end
follows from the newlines among them. -/
theorem Represents.scans (represents : Represents source clean parser (members, tokens)) :
    Scans source clean (parser.lexer.line + tokens.countP isNewline) parser.lexer.line parser (members, tokens) :=
  ⟨represents, rfl, rfl⟩

variable {ends line : Nat} {υ : Type} {Q : Parser → υ → Prop} {late : Exception → υ → Prop} {blame : Prop}

/-- A run within a line, against its specification: a failure has the line, or
no line if it is to blame on a conversion. -/
abbrev Answers {α : Type} (line : Nat) (Q : Parser → υ → Prop) (late : Exception → υ → Prop) (blame : Prop)
    (result : EStateM.Result Exception Parser α) (spec : Option (α × υ)) : Prop :=
  Reports Q (Carries line) Unlocated late blame result spec

/-- A run that stays in its line. -/
abbrev Within {α : Type} (source : Text) (clean : Bool) (ends line : Nat) (blame : Prop)
    (result : EStateM.Result Exception Parser α) (spec : Option (α × Parser × List Token)) : Prop :=
  Answers line (Scans source clean ends line) (fun _ _ => False) blame result spec

/-- A run up to the next statement. Behind the last one it may come to what the
lexer cannot read. -/
abbrev Through {α : Type} (source : Text) (clean : Bool) (ends line : Nat) (blame : Prop)
    (result : EStateM.Result Exception Parser α) (spec : Option (α × Parser × List Token)) : Prop :=
  Answers line (fun parser view => ∃ line, Scans source clean ends line parser view)
    (fun e view => clean = false ∧ view.2 = [] ∧ Carries ends e) blame result spec

/-- Where the line of a failure does not matter, a run up to the next statement is a
run against its specification. -/
theorem meets_of_through {α : Type} {result : EStateM.Result Exception Parser α}
    {spec : Option (α × Parser × List Token)}
    (through : Through source clean ends line blame result spec) : Meets source clean result spec :=
  through.agrees (fun _ _ scans => scans.elim (fun _ scans => scans.toRepresents)) (fun _ _ late => late.1)

/-- A conversion that cannot fail with a line is followed by the rest of the parser.
The two cases are those of the specification: no value, or this value. -/
theorem lift_bind {α β : Type} {result : Except Exception α} {g : α → Parse β} {spec : Option (β × υ)}
    (failed : ∀ e, result = .error e → Unlocated e) (stop : result.toOption = none → spec = none ∧ blame)
    (go : ∀ value, result.toOption = some value → Answers line Q late blame (g value parser) spec) :
    Answers line Q late blame ((lift result >>= g) parser) spec := by
  cases result with
  | error e =>
    obtain ⟨rfl, blamed⟩ := stop rfl
    exact .bind_error rfl (.foul (failed e rfl) blamed)
  | ok value => exact .bind_ok rfl (go value rfl)

/-- A token other than a newline leaves the parser on its line. -/
theorem Scans.visible {token : Token} {view : Parser × List Token} (visible : token.type ≠ .Newline)
    (scans : Scans source clean ends (line + [token].countP isNewline) parser view) :
    Scans source clean ends line parser view := by
  rw [List.countP_singleton, if_neg (mt isNewline_iff.mp visible)] at scans
  exact scans

/-- The next token is on the line of the parser, and taking it moves the line only
if it is a newline. -/
theorem Scans.nextToken {token : Token} {rest : List Token}
    (scans : Scans source clean ends line parser (members, token :: rest)) :
    ∃ after, nextToken parser = .ok token after ∧ token.line = line ∧
      Scans source clean ends (line + [token].countP isNewline) after (members, rest) := by
  obtain ⟨after, ran, there, same, _⟩ := scans.here.next_cons
  obtain ⟨tokenLine, afterLine⟩ := Lexer.next_line scans.here.sound ran
  refine ⟨{ parser with lexer := after }, ?_, tokenLine.trans scans.onLine, scans.with_lexer there same, ?_, ?_⟩
  · unfold Parser.nextToken
    rw [ran]
  · rw [← scans.onLine]
    exact afterLine
  · have ends := scans.ending
    rw [← List.singleton_append, List.countP_append] at ends
    rw [Nat.add_assoc]
    exact ends

/-- At the end of the tokens there is the end of the source, or an error with the
line of the parser. -/
theorem Scans.nextToken_nil (scans : Scans source clean ends line parser (members, [])) :
    (∃ e, Parser.nextToken parser = .error e parser ∧ Carries line e) ∨
      ∃ token after, Parser.nextToken parser = .ok token after ∧ token.type = .End ∧ token.line = line := by
  unfold Parser.nextToken
  cases ran : parser.lexer.next with
  | error e =>
    have carries := Lexer.next_error scans.here.sound ran
    rw [scans.onLine] at carries
    exact .inl ⟨e, rfl, carries⟩
  | ok found =>
    have lines := Lexer.next_line scans.here.sound ran
    exact .inr ⟨_, _, rfl, scans.here.next_nil ran, lines.1.trans scans.onLine⟩

/-- A peek leaves the tokens as they are; at their end there is a token of its
own, or an error. -/
theorem Represents.peekToken (represents : Represents source clean parser (members, tokens)) :
    (∃ e, Parser.peekToken parser = .error e parser ∧ parser.lexer.peek = .error e ∧ clean = false) ∨
      ∃ token after, Parser.peekToken parser = .ok token after ∧ Represents source clean after (members, tokens) ∧
        after.lexer.line = parser.lexer.line ∧
        (tokens.head? = some token ∨ tokens = [] ∧ clean = true ∧ token.type = .End) := by
  unfold Parser.peekToken
  cases ran : parser.lexer.peek with
  | error e => exact .inl ⟨e, rfl, rfl, represents.here.peek_error ran⟩
  | ok found =>
    obtain ⟨token, after⟩ := found
    obtain ⟨there, cursor, head⟩ := represents.here.peek_ok ran
    have same : after.cursor.source = parser.lexer.cursor.source := congrArg Lexer.source cursor
    have line : after.cursor.line = parser.lexer.cursor.line := congrArg Lexer.line cursor
    exact .inr ⟨token, _, rfl, represents.with_lexer there same, line, head⟩

/-- A peek fails behind the last token only. -/
theorem peek_nil {e : Exception} (represents : Represents source clean parser (members, tokens))
    (ran : parser.lexer.peek = .error e) : tokens = [] := by
  cases tokens with
  | nil => rfl
  | cons token rest =>
    obtain ⟨_, found, _⟩ := represents.here.peek_cons
    rw [found] at ran
    cases ran

/-- The rule for a peek that is followed by the rest of the parser: it gets stuck
behind the last token of a source that cannot be read, and goes on with the tokens
as they were otherwise. -/
theorem peekToken_bind {α : Type} {g : Token → Parse α} {spec : Option (α × υ)} {fair foul : Exception → Prop}
    (scans : Scans source clean ends line parser (members, tokens))
    (stuck : ∀ e, tokens = [] → clean = false → Carries line e →
      Reports Q fair foul late blame (.error e parser : EStateM.Result Exception Parser α) spec)
    (go : ∀ token after, Scans source clean ends line after (members, tokens) →
      (tokens.head? = some token ∨ tokens = [] ∧ clean = true ∧ token.type = .End) →
      Reports Q fair foul late blame (g token after) spec) :
    Reports Q fair foul late blame ((peekToken >>= g) parser) spec := by
  rcases scans.toRepresents.peekToken with ⟨e, ran, peek, broken⟩ | ⟨token, after, ran, there, same, head⟩
  · have carries := Lexer.peek_error scans.here.sound peek
    rw [scans.onLine] at carries
    exact .bind_error ran (stuck e (peek_nil scans.toRepresents peek) broken carries)
  · exact .bind_ok ran (go token after ⟨there, same.trans scans.onLine, scans.ending⟩ head)

/-- A token of another type than the one asked for is reported with its own line. -/
theorem consume_error {type : TokenType} (notEnd : type ≠ .End)
    (scans : Scans source clean ends line parser (members, tokens)) (missing : expect type tokens = none) :
    ∃ e after, consume type parser = .error e after ∧ Carries line e := by
  have wrong : ∀ token after, nextToken parser = .ok token after → token.type ≠ type → token.line = line →
      ∃ e after, consume type parser = .error e after ∧ Carries line e := by
    intro token after ran different same
    refine ⟨.assemblerError token.line ("unexpected token: " ++ String.ofList token.text), after, ?_, _, by rw [same]⟩
    change EStateM.bind nextToken _ parser = _
    unfold EStateM.bind
    rw [ran]
    dsimp only
    rw [if_pos different]
    rfl
  cases tokens with
  | nil =>
    rcases scans.nextToken_nil with ⟨e, ran, carries⟩ | ⟨token, after, ran, ended, same⟩
    · refine ⟨e, parser, ?_, carries⟩
      change EStateM.bind nextToken _ parser = _
      unfold EStateM.bind
      rw [ran]
    · exact wrong token after ran (by rw [ended]; exact notEnd.symm) same
  | cons token rest =>
    obtain ⟨after, ran, same, _⟩ := scans.nextToken
    refine wrong token after ran (fun is => ?_) same
    rw [expect_of_eq is] at missing
    cases missing

/-- A token of the type asked for is taken. -/
theorem consume_ok {type : TokenType} {token : Token} {rest : List Token} (visible : type ≠ .Newline)
    (scans : Scans source clean ends line parser (members, tokens)) (found : expect type tokens = some (token, rest)) :
    ∃ after, consume type parser = .ok token after ∧ token.line = line ∧
      Scans source clean ends line after (members, rest) := by
  obtain ⟨rfl, is⟩ := eq_cons_of_expect found
  obtain ⟨after, ran, same, there⟩ := scans.nextToken
  refine ⟨after, ?_, same, there.visible (is ▸ visible)⟩
  change EStateM.bind nextToken _ parser = _
  unfold EStateM.bind
  rw [ran]
  dsimp only
  rw [if_neg (not_not_intro is)]
  rfl

/-- The rule for `consume`: `expect` on the tokens says whether it goes on, and no
conversion is to blame if it does not. -/
theorem consume_bind {α : Type} {type : TokenType} {g : Token → Parse α} {spec : Option (α × υ)}
    (inner : type ≠ .End ∧ type ≠ .Newline) (scans : Scans source clean ends line parser (members, tokens))
    (missing : expect type tokens = none → spec = none ∧ ¬ blame)
    (go : ∀ token rest after, expect type tokens = some (token, rest) → token.line = line →
      Scans source clean ends line after (members, rest) → Answers line Q late blame (g token after) spec) :
    Answers line Q late blame ((consume type >>= g) parser) spec := by
  cases found : expect type tokens with
  | none =>
    obtain ⟨e, after, ran, carries⟩ := consume_error inner.1 scans found
    obtain ⟨rfl, blameless⟩ := missing found
    exact .bind_error ran (.fair carries blameless)
  | some read =>
    obtain ⟨after, ran, same, there⟩ := consume_ok inner.2 scans found
    exact .bind_ok ran (go read.1 read.2 after found same there)

/-- The rule for a peek at the type of the next token, with a branch for either
answer. -/
theorem peek_if {α : Type} {type : TokenType} {x y : Parse α} {spec : Option (α × υ)} (notEnd : type ≠ .End)
    (scans : Scans source clean ends line parser (members, tokens))
    (stuck : ∀ e, tokens = [] → clean = false → Carries line e →
      Answers line Q late blame (.error e parser : EStateM.Result Exception Parser α) spec)
    (yes : ∀ token rest after, expect type tokens = some (token, rest) →
      Scans source clean ends line after (members, tokens) → Answers line Q late blame (x after) spec)
    (no : ∀ after, expect type tokens = none →
      Scans source clean ends line after (members, tokens) → Answers line Q late blame (y after) spec) :
    Answers line Q late blame ((peekToken >>= fun token => if token.type = type then x else y) parser) spec := by
  refine peekToken_bind scans stuck ?_
  intro token after there head
  split
  · rename_i same
    rcases head with head | ⟨_, _, ended⟩
    · obtain ⟨rest, rfl⟩ := List.head?_eq_some_iff.mp head
      exact yes token rest after (expect_of_eq same) there
    · exact absurd (same.symm.trans ended) notEnd
  · rename_i different
    refine no after ?_ there
    rcases head with head | ⟨rfl, _, _⟩
    · obtain ⟨rest, rfl⟩ := List.head?_eq_some_iff.mp head
      exact expect_of_ne different
    · rfl

/-- The rule for `match_`, which takes the token if it has the type. -/
theorem match_bind {α : Type} {type : TokenType} {g : Bool → Parse α} {spec : Option (α × υ)} (notEnd : type ≠ .End)
    (scans : Scans source clean ends line parser (members, tokens))
    (stuck : ∀ e, tokens = [] → clean = false → Carries line e →
      Answers line Q late blame (.error e parser : EStateM.Result Exception Parser α) spec)
    (yes : ∀ token rest after, expect type tokens = some (token, rest) →
      Scans source clean ends (line + [token].countP isNewline) after (members, rest) →
      Answers line Q late blame (g true after) spec)
    (no : ∀ after, expect type tokens = none →
      Scans source clean ends line after (members, tokens) → Answers line Q late blame (g false after) spec) :
    Answers line Q late blame ((match_ type >>= g) parser) spec := by
  have unfolded : (match_ type >>= g) =
      peekToken >>= fun token => if token.type = type then nextToken >>= fun _ => g true else g false := by
    unfold match_
    rw [bind_assoc]
    refine congrArg _ (funext fun token => ?_)
    split
    · rw [bind_assoc]
      rfl
    · rfl
  rw [unfolded]
  refine peek_if notEnd scans stuck ?_ no
  intro token rest after found there
  obtain ⟨rfl, _⟩ := eq_cons_of_expect found
  obtain ⟨later, ran, _, beyond⟩ := there.nextToken
  exact .bind_ok ran (yes token rest later found beyond)

/-- The loop takes all newlines in front, each of which is a token, so more rounds
than tokens suffice. -/
theorem skipNewlinesLoop_through {fuel line' : Nat} (scans : Scans source clean ends line parser (members, tokens))
    (enough : tokens.length < fuel) (blameless : ¬ blame) :
    Through source clean ends line' blame (skipNewlinesLoop fuel parser)
    (some ((), members, tokens.dropWhile isNewline)) := by
  induction fuel generalizing line line' parser tokens with
  | zero => exact absurd enough (Nat.not_lt_zero _)
  | succ fuel ih =>
    unfold skipNewlinesLoop
    suffices same : Through source clean ends line blame _ _ from same.of_some
    refine match_bind (by decide) scans ?_ ?_ ?_
    · rintro e rfl broken carries
      have ending := scans.ending
      rw [List.countP_nil, Nat.add_zero] at ending
      exact .late ⟨broken, rfl, ending ▸ carries⟩ blameless
    · intro token rest after found there
      obtain ⟨rfl, newline⟩ := eq_cons_of_expect found
      rw [List.dropWhile_cons_of_pos (isNewline_iff.mpr newline)]
      exact ih there (Nat.lt_of_succ_lt_succ enough)
    · intro after missing there
      have stops : tokens.dropWhile isNewline = tokens := by
        cases tokens with
        | nil => rfl
        | cons first others =>
          by_cases newline : first.type = .Newline
          · rw [expect_of_eq newline] at missing
            cases missing
          · exact List.dropWhile_cons_of_neg (mt isNewline_iff.mp newline)
      rw [stops]
      exact .pure ⟨line, there⟩ blameless

/-- The source is longer than the list of its tokens, so `skipNewlines` has the
rounds it needs. -/
theorem skipNewlines_through {line' : Nat} (scans : Scans source clean ends line parser (members, tokens))
    (blameless : ¬ blame) :
    Through source clean ends line' blame (skipNewlines parser) (some ((), members, tokens.dropWhile isNewline)) :=
  skipNewlinesLoop_through scans (Nat.lt_succ_of_le scans.here.length_le) blameless

/-- A write to the members changes the view in the same way. -/
theorem Represents.modify {f : Parser → Parser} (represents : Represents source clean parser (members, tokens))
    (lexer : (f parser).lexer = parser.lexer) (apart : (f parser).members = f parser.members) :
    Represents source clean (f parser) (f members, tokens) := by
  refine ⟨?_, ?_, ?_⟩
  · rw [lexer]
    exact represents.here
  · rw [lexer]
    exact represents.source
  · rw [apart, represents.members]

/-- A write to the members leaves the parser on its line. -/
theorem Scans.modify {f : Parser → Parser} (scans : Scans source clean ends line parser (members, tokens))
    (lexer : (f parser).lexer = parser.lexer) (apart : (f parser).members = f parser.members) :
    Scans source clean ends line (f parser) (f members, tokens) := by
  refine ⟨scans.toRepresents.modify lexer apart, ?_, scans.ending⟩
  rw [lexer]
  exact scans.onLine

/-- An instruction ends with the newlines behind it, and the next one has the
address behind it, be it emitted or not. -/
theorem endInstruction_through (scans : Scans source clean ends line parser (members, tokens)) (blameless : ¬ blame) :
    Through source clean ends line blame (endInstruction parser)
      (some ((), { members with codeAddress := members.codeAddress + 1 }, tokens.dropWhile isNewline)) := by
  unfold endInstruction
  have counted := scans.modify (f := fun parser => { parser with codeAddress := parser.codeAddress + 1 }) rfl rfl
  exact .bind_ok rfl (skipNewlines_through counted blameless)

/-- A word is appended in the second pass only. Both passes then end the instruction
alike, which is what keeps their addresses in step. -/
theorem emitWord_then (emit : Bool) (word : Word) (scans : Scans source clean ends line parser (members, tokens))
    (blameless : ¬ blame) :
    Through source clean ends line blame ((emitWord emit word >>= fun _ => endInstruction) parser)
      (some ((), afterWord emit members word, tokens.dropWhile isNewline)) := by
  cases emit with
  | false => exact .bind_ok rfl (endInstruction_through scans blameless)
  | true =>
    have emitted := scans.modify (f := fun parser => { parser with code := parser.code ++ [word] }) rfl rfl
    exact .bind_ok rfl (endInstruction_through emitted blameless)

theorem parseRegisterToken_eq {token : Token} (register : token.type = .Register) :
    parseRegisterToken token = registerIndexFromName token.text := if_neg (not_not_intro register)

theorem parseNumberToken_eq {token : Token} (number : token.type = .Number) :
    parseNumberToken token = (stol token.text).map (fun value => BitVec.ofInt 16 value) := if_neg (not_not_intro number)

/-- What a number token stands for is `immediate?` of its text. -/
theorem parseNumberToken_toOption {token : Token} (number : token.type = .Number) :
    (parseNumberToken token).toOption = immediate? token.text := by
  rw [parseNumberToken_eq number]
  unfold immediate?
  cases stol token.text <;> rfl

/-- The rule for a number: the one thing that can go wrong is the conversion. -/
theorem numberToken_bind {β : Type} {token : Token} {rest : List Token} {g : BitVec 16 → Parse β}
    {spec : Option (β × υ)} (found : expect .Number tokens = some (token, rest))
    (stop : immediate? token.text = none → spec = none ∧ blame)
    (go : ∀ imm, immediate? token.text = some imm → Answers line Q late blame (g imm parser) spec) :
    Answers line Q late blame ((lift (parseNumberToken token) >>= g) parser) spec := by
  have number := (eq_cons_of_expect found).2
  have same := parseNumberToken_toOption number
  refine lift_bind ?_ (fun none => stop (same.symm.trans none)) (fun imm is => go imm (same.symm.trans is))
  intro e failed
  rw [parseNumberToken_eq number] at failed
  cases converted : stol token.text with
  | error e' =>
    rw [converted] at failed
    cases failed
    exact unlocated_of_stringToInteger converted
  | ok value =>
    rw [converted] at failed
    cases failed

/-- The rule for a register, once its token is known to be there. -/
theorem parseRegister_bind {β : Type} {g : Byte → Parse β} {spec : Option (β × υ)} {token : Token} {rest : List Token}
    (scans : Scans source clean ends line parser (members, tokens))
    (found : expect .Register tokens = some (token, rest)) (stop : register? token.text = none → spec = none ∧ blame)
    (go : ∀ rd after, register? token.text = some rd → Scans source clean ends line after (members, rest) →
      Answers line Q late blame (g rd after) spec) :
    Answers line Q late blame ((parseRegister >>= g) parser) spec := by
  unfold parseRegister
  rw [bind_assoc]
  refine consume_bind (by decide) scans (fun missing => by rw [found] at missing; cases missing) ?_
  intro token' rest' after found' _ there
  cases found.symm.trans found'
  have same := parseRegisterToken_eq (eq_cons_of_expect found).2
  rw [same]
  exact lift_bind (fun e => unlocated_of_registerIndexFromName) stop (fun rd is => go rd after is there)

/-- What a parser of one operand is to return: what the operand stands for, if
it is an operand of the right kind. -/
def operandSpec {α : Type} (value? : Operand → Option α) (members : Parser) (tokens : List Token) :
    Option (α × Parser × List Token) :=
  (readOperand tokens).bind (fun read => (value? read.1).map (fun value => (value, members, read.2)))

/-- With the operand read, what is left to say is what it stands for. -/
theorem operandSpec_of_read {α : Type} {value? : Operand → Option α} {operand : Operand} {rest : List Token}
    (read : readOperand tokens = some (operand, rest)) :
    operandSpec value? members tokens = (value? operand).map (fun value => (value, members, rest)) := by
  unfold operandSpec
  rw [read]
  rfl

/-- If no operand that can be read there stands for anything, nothing is returned. -/
theorem operandSpec_none {α : Type} {value? : Operand → Option α}
    (nothing : ∀ operand rest, readOperand tokens = some (operand, rest) → value? operand = none) :
    operandSpec value? members tokens = none := by
  refine Option.bind_eq_none_iff.mpr (fun read found => ?_)
  rw [nothing read.1 read.2 found]
  rfl

/-- The rule for a parser of one operand with the rest of the parser behind it. The
fault of the whole is the fault of the operand wherever the operand stops it. -/
theorem operand_bind {α β : Type} {value? : Operand → Option α} {x : Parse α} {g : α → Parse β}
    {spec : Option (β × υ)} {blame' : Prop}
    (ran : Within source clean ends line blame' (x parser) (operandSpec value? members tokens))
    (stop : (∀ operand rest, readOperand tokens = some (operand, rest) → value? operand = none) →
      spec = none ∧ (blame ↔ blame'))
    (go : ∀ operand rest value after, readOperand tokens = some (operand, rest) → value? operand = some value →
      Scans source clean ends line after (members, rest) → Answers line Q late blame (g value after) spec) :
    Answers line Q late blame ((x >>= g) parser) spec := by
  refine ran.bind ?_ ?_
  · intro none
    refine stop (fun operand rest read => ?_)
    rw [operandSpec_of_read read] at none
    exact Option.map_eq_none_iff.mp none
  · intro value after view found there
    obtain ⟨⟨operand, rest⟩, read, found⟩ := Option.bind_eq_some_iff.mp found
    obtain ⟨value', is, same⟩ := Option.map_eq_some_iff.mp found
    cases same
    exact go operand rest value after read is there

/-- A register in the place of one is parsed as the operand that it is. -/
theorem parseRegister_within (scans : Scans source clean ends line parser (members, tokens)) :
    Within source clean ends line (registerFault tokens = true) (parseRegister parser)
      (operandSpec registerOperand? members tokens) := by
  cases found : expect .Register tokens with
  | none =>
    unfold parseRegister
    refine consume_bind (by decide) scans (fun missing => ⟨?_, ?_⟩) (fun _ _ _ found' => by
      rw [found] at found'
      cases found')
    · refine operandSpec_none (fun operand rest read => ?_)
      have different := operandType_ne missing read
      cases operand with
      | register name => exact absurd rfl different
      | number _ => rfl
      | name _ => rfl
      | memory _ => rfl
    · rw [registerFault_of_none missing]
      exact Bool.false_ne_true
  | some read =>
    rw [operandSpec_of_read (readOperand_register found), registerFault_of_expect found, registerOperand?]
    have plain : parseRegister = (parseRegister >>= fun rd => pure rd) := (bind_pure _).symm
    rw [plain]
    refine parseRegister_bind scans found ?_ ?_
    · intro unknown
      rw [unknown]
      exact ⟨rfl, rfl⟩
    · intro rd after is there
      rw [is]
      exact .pure there Bool.false_ne_true

/-- The rule for a label: an unknown one is reported with the line of its token, and
no conversion is to blame. -/
theorem labelAddress_bind {β : Type} {token : Token} {g : Address → Parse β} {spec : Option (β × υ)}
    (scans : Scans source clean ends line parser (members, tokens)) (tokenLine : token.line = line)
    (unknown : members.labels token.text = none → spec = none ∧ ¬ blame)
    (go : ∀ target, members.labels token.text = some target → Answers line Q late blame (g target parser) spec) :
    Answers line Q late blame ((labelAddress token >>= g) parser) spec := by
  have same : parser.resolveLabel token.text token.line = members.resolveLabel token.text token.line := by
    have apart : parser.members = members := scans.members
    rw [← apart]
    rfl
  unfold labelAddress
  rw [bind_assoc]
  refine .get ?_
  rw [same]
  unfold resolveLabel
  cases found : members.labels token.text with
  | none =>
    obtain ⟨rfl, blameless⟩ := unknown found
    exact .bind_error rfl (.fair ⟨_, by rw [tokenLine]⟩ blameless)
  | some target => exact .bind_ok rfl (go target found)

/-- The rule for a symbol of the data section, which is looked up in both passes. -/
theorem dataSymbolAddress_bind {β : Type} {token : Token} {g : Address → Parse β} {spec : Option (β × υ)}
    (scans : Scans source clean ends line parser (members, tokens)) (tokenLine : token.line = line)
    (unknown : symbolOffset? members token.text = none → spec = none ∧ ¬ blame)
    (go : ∀ offset, symbolOffset? members token.text = some offset → Answers line Q late blame (g offset parser) spec) :
    Answers line Q late blame ((dataSymbolAddress token >>= g) parser) spec := by
  have same : parser.resolveDataSymbol token.text token.line = members.resolveDataSymbol token.text token.line := by
    have apart : parser.members = members := scans.members
    rw [← apart]
    rfl
  unfold dataSymbolAddress
  rw [bind_assoc]
  refine .get ?_
  rw [same]
  unfold resolveDataSymbol
  unfold symbolOffset? at unknown go
  cases found : members.dataSymbols.find? (fun symbol => symbol.name == token.text) with
  | none =>
    obtain ⟨rfl, blameless⟩ := unknown (by rw [found]; rfl)
    exact .bind_error rfl (.fair ⟨_, by rw [tokenLine]⟩ blameless)
  | some symbol => exact .bind_ok rfl (go symbol.offset (by rw [found]; rfl))

/-- A memory operand past its first bracket, as `mov` and the parsers of
offsets read it. -/
theorem memory_bind {β : Type} {g : Token → Address → Token → Parse β} {spec : Option (β × υ)}
    (scans : Scans source clean ends line parser (members, tokens)) (blameless : ¬ blame)
    (stop : (∀ symbol rest, readMemory tokens = some (.memory symbol, rest) → symbolOffset? members symbol = none) →
      spec = none)
    (go : ∀ symbol bracket rest offset after, readMemory tokens = some (.memory symbol.text, rest) →
      symbolOffset? members symbol.text = some offset → symbol.line = line →
      Scans source clean ends line after (members, rest) →
      Answers line Q late blame (g symbol offset bracket after) spec) :
    Answers line Q late blame
      ((do
        let symToken ← consume .Identifier
        let offset ← dataSymbolAddress symToken
        let bracket ← consume .RBracket
        g symToken offset bracket) parser) spec := by
  refine consume_bind (by decide) scans ?_ ?_
  · intro missing
    refine ⟨stop (fun symbol rest read => ?_), blameless⟩
    unfold readMemory at read
    rw [missing] at read
    cases read
  intro symToken later after found symLine there
  have read : readMemory tokens = (expect .RBracket later).map (fun bracket => (.memory symToken.text, bracket.2)) := by
    unfold readMemory
    rw [found]
    rfl
  refine dataSymbolAddress_bind there symLine ?_ ?_
  · intro unknown
    refine ⟨stop (fun symbol rest read' => ?_), blameless⟩
    obtain ⟨_, _, same⟩ := Option.map_eq_some_iff.mp (read.symm.trans read')
    cases same
    exact unknown
  intro offset known
  refine consume_bind (by decide) there ?_ ?_
  · intro missing
    refine ⟨stop (fun symbol rest read' => ?_), blameless⟩
    rw [read, missing] at read'
    cases read'
  · intro bracket rest last closes _ beyond
    refine go symToken bracket rest offset last ?_ known symLine beyond
    rw [read, closes]
    rfl

/-- An offset is a number, or a symbol in brackets. -/
theorem parseOffset_within (scans : Scans source clean ends line parser (members, tokens)) :
    Within source clean ends line (numberFault tokens = true) (parseOffset parser)
      (operandSpec (offset? members) members tokens) := by
  unfold parseOffset
  refine match_bind (by decide) scans ?_ ?_ ?_
  · rintro e rfl _ carries
    exact .fair carries Bool.false_ne_true
  · intro token later after found there
    have memory := readOperand_memory found
    have bracket := (eq_cons_of_expect found).2
    rw [numberFault_of_none (expect_of_expect (by decide) found), if_pos rfl]
    refine memory_bind (there.visible (by rw [bracket]; decide)) Bool.false_ne_true ?_ ?_
    · intro none
      unfold operandSpec
      rw [memory]
      refine readMemory_bind_none (fun symbol rest read => ?_)
      rw [offset?, none symbol rest read]
      rfl
    · intro symbol bracket rest offset last read known _ beyond
      rw [operandSpec_of_read (memory.trans read), offset?, known]
      exact .pure beyond Bool.false_ne_true
  · intro after noBracket there
    rw [if_neg (by decide)]
    refine consume_bind (by decide) there ?_ ?_
    · intro missing
      rw [numberFault_of_none missing]
      refine ⟨operandSpec_none (fun operand rest read => ?_), Bool.false_ne_true⟩
      have noMemory := operandType_ne noBracket read
      have noNumber := operandType_ne missing read
      cases operand with
      | register _ => rfl
      | number _ => exact absurd rfl noNumber
      | name _ => rfl
      | memory _ => exact absurd rfl noMemory
    · intro token rest last found _ beyond
      rw [operandSpec_of_read (readOperand_number found), offset?, numberFault_of_expect found]
      refine numberToken_bind found ?_ ?_
      · intro none
        rw [none]
        exact ⟨rfl, rfl⟩
      · intro imm is
        rw [is]
        exact .pure beyond Bool.false_ne_true

end Parser

end VirtualMachine
