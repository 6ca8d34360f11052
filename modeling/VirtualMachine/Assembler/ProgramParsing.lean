import VirtualMachine.Assembler.InstructionParsing

namespace VirtualMachine

namespace Parser

open ErrorState Source

variable {source : Text} {clean emit : Bool} {parser members : Parser} {tokens rest : List Token} {token : Token}
  {ends line : Nat}

/-- What is left after a statement: what it does to the members, and the tokens
behind it from the next line that is not blank. -/
def statementSpec (emit : Bool) (members : Parser) (read : Option (Statement × List Token)) :
    Option (Unit × Parser × List Token) :=
  read.bind (fun read =>
    (read.1.perform emit members).map (fun after => ((), after, read.2.dropWhile isNewline)))

/-- A section name and its colon. -/
theorem enterSection_through (target : SourceSection) (scans : Scans source clean ends line parser (members, tokens)) :
    Through source clean ends line (false = true) (enterSection target parser)
      (statementSpec emit members ((readColon tokens).map (fun rest => (.openSection target, rest)))) := by
  unfold enterSection
  refine consume_bind (by decide) scans ?_ ?_
  · intro missing
    rw [readColon_eq, missing]
    exact ⟨rfl, Bool.false_ne_true⟩
  · intro colon rest after found _ there
    rw [readColon_eq, found]
    have entered := there.modify (f := fun parser => { parser with section_ := target }) rfl rfl
    exact .bind_ok rfl (skipNewlines_through entered Bool.false_ne_true)

theorem dataTypeFromName_toOption (token : Token) : (dataTypeFromName token).toOption = dataType? token.text := by
  unfold dataType? dataTypeFromName
  dsimp only
  repeat' split
  all_goals rfl

/-- An unknown data type is reported with the line of its token, unlike an unknown
mnemonic. -/
theorem dataTypeFromName_error {e : Exception} (failed : dataTypeFromName token = .error e) : Carries token.line e := by
  unfold dataTypeFromName at failed
  repeat' split at failed
  all_goals cases failed
  exact ⟨_, rfl⟩

/-- A declaration. Only its value is converted, so only that can fail without a
line. -/
theorem parseDeclaration_through (tokenLine : token.line = line) (type : token.type = .Identifier)
    (scans : Scans source clean ends line parser (members, tokens)) :
    Through source clean ends line (declarationFault token.text tokens = true) (parseDeclaration emit token parser)
      (statementSpec emit members (readDeclaration token.text tokens)) := by
  unfold parseDeclaration
  rw [if_neg (not_not_intro type), readDeclaration_eq, declarationFault, ← dataTypeFromName_toOption]
  cases typed : dataTypeFromName token with
  | error e =>
    have unknown : dataType? token.text = none := by rw [← dataTypeFromName_toOption, typed]; rfl
    have failed : statementSpec emit members ((expect .Identifier tokens).bind (fun name =>
        (expect .Number name.2).map (fun value =>
          (.declaration token.text name.1.text value.1.text, value.2)))) = none := by
      refine Option.bind_eq_none_iff.mpr (fun read found => ?_)
      obtain ⟨name, _, found⟩ := Option.bind_eq_some_iff.mp found
      obtain ⟨value, _, rfl⟩ := Option.map_eq_some_iff.mp found
      rw [Statement.perform, unknown]
      rfl
    rw [failed]
    exact .bind_error rfl (.fair (tokenLine ▸ dataTypeFromName_error typed) Bool.false_ne_true)
  | ok dataType =>
  have known : dataType? token.text = some dataType := by rw [← dataTypeFromName_toOption, typed]; rfl
  refine .bind_ok rfl ?_
  refine consume_bind (by decide) scans ?_ ?_
  · intro missing
    rw [missing]
    exact ⟨rfl, Bool.false_ne_true⟩
  intro name later after named _ there
  rw [named, Option.bind_some, Option.any_some]
  refine consume_bind (by decide) there ?_ ?_
  · intro missing
    rw [missing, numberFault_of_none missing]
    exact ⟨rfl, Bool.false_ne_true⟩
  intro value rest last found _ beyond
  rw [found, Option.map_some, statementSpec, Option.bind_some, Statement.perform, known, numberFault_of_expect found]
  refine numberToken_bind found ?_ ?_
  · intro none
    rw [none]
    exact ⟨rfl, rfl⟩
  intro imm is
  rw [is]
  cases emit with
  | true => exact skipNewlines_through beyond Bool.false_ne_true
  | false =>
    have declared := beyond.modify (f := fun parser => { parser with
      dataSymbols := parser.dataSymbols ++
        [{ name := name.text, type := dataType, value := imm.signExtend 64, offset := parser.dataOffset }]
      dataOffset := parser.dataOffset + BitVec.ofNat 32 (dataTypeSize dataType) }) rfl rfl
    exact .bind_ok rfl (skipNewlines_through declared Bool.false_ne_true)

/-- An instruction as a statement is the instruction. -/
theorem instruction_statementSpec (emit : Bool) (members : Parser) (tokens : List Token) :
    statementSpec emit members ((readInstruction tokens).map (fun read => (.instruction read.1, read.2))) =
      instructionSpec emit members tokens := by
  unfold statementSpec instructionSpec
  rw [Option.bind_map]
  refine congrArg _ (funext fun read => ?_)
  exact Option.map_map _ _ _

/-- An instruction that is a single token leaves nothing behind it. -/
theorem instructionSpec_last {left : Unit × Parser × List Token}
    (done : instructionSpec emit members [token] = some left) :
    left.2.2 = [] := by
  obtain ⟨read, spelled, done⟩ := Option.bind_eq_some_iff.mp done
  obtain ⟨word, _, rfl⟩ := Option.map_eq_some_iff.mp done
  obtain ⟨type, text, line⟩ := token
  cases type
  case Identifier =>
    obtain ⟨operands, are, rfl⟩ := Option.map_eq_some_iff.mp spelled
    have none_ : operands.2 = [] := List.suffix_nil.mp (readOperands_consumes are).suffix
    change operands.2.dropWhile isNewline = []
    rw [none_]
    rfl
  all_goals cases spelled

/-- Between the first token of a statement and its end the parser may go back
to where the statement starts, on the same line. -/
theorem restored_through {original after : Parser}
    (start : Scans source clean ends line original (members, token :: rest))
    (there : Scans source clean ends line after (members, rest)) :
    Through source clean ends line (instructionFault emit members (token :: rest) = true)
      ((restoreLexer original.lexer.mark >>= fun _ => parseInstruction emit) after)
      (instructionSpec emit members (token :: rest)) := by
  have same : after.lexer.source = original.lexer.source := there.source.trans start.source.symm
  have restored := start.here.restore same (there.onLine.trans start.onLine.symm)
  exact .bind_ok rfl (parseInstruction_through ⟨⟨restored, there.source, there.members⟩, there.onLine, start.ending⟩)

/-- In the code section a colon behind the first token makes it a label. Without one
the parser goes back to the token and reads an instruction. -/
theorem parseCodeStatement_through {original : Parser} (type : token.type = .Identifier)
    (start : Scans source clean ends line original (members, token :: rest))
    (scans : Scans source clean ends line parser (members, rest)) :
    Through source clean ends line
      (((readColon rest).isNone && (clean || !rest.isEmpty) && instructionFault emit members (token :: rest)) = true)
      (parseCodeStatement emit original.lexer.mark token parser)
      (statementSpec emit members (readOther .Code token rest)) := by
  unfold parseCodeStatement
  rw [if_pos type, readOther]
  refine peekToken_bind scans ?_ ?_
  · -- The look-ahead fails behind the last token, which may be all of the statement.
    rintro e rfl rfl carries
    have ending := scans.ending
    rw [List.countP_nil, Nat.add_zero] at ending
    have noColon : readColon [] = none := rfl
    rw [noColon, List.isEmpty_nil, Bool.not_true, Bool.or_self, Bool.and_false, Bool.false_and]
    dsimp only
    rw [instruction_statementSpec]
    cases done : instructionSpec emit members [token] with
    | none => exact .fair carries Bool.false_ne_true
    | some left => exact .late ⟨rfl, instructionSpec_last done, ending ▸ carries⟩ Bool.false_ne_true
  intro next after there head
  by_cases colon : next.type = .Colon
  · rcases head with head | ⟨_, _, ended⟩
    · obtain ⟨others, rfl⟩ := List.head?_eq_some_iff.mp head
      rw [readColon_eq, expect_of_eq colon, Option.map_some]
      obtain ⟨later, read, _, beyond⟩ := there.nextToken
      simp only [pure_bind, colon, decide_true, if_true]
      refine .bind_ok read ?_
      have labelled := beyond.modify (f := fun parser => { parser with
        labels := Function.update parser.labels token.text (some parser.codeAddress) }) rfl rfl
      exact .bind_ok rfl (skipNewlines_through labelled Bool.false_ne_true)
    · rw [ended] at colon
      cases colon
  · have noColon : readColon rest = none := by
      rw [readColon_eq]
      rcases head with head | ⟨rfl, _, _⟩
      · obtain ⟨others, rfl⟩ := List.head?_eq_some_iff.mp head
        rw [expect_of_ne colon]
        rfl
      · rfl
    have seen : (clean || !rest.isEmpty) = true := by
      rcases head with head | ⟨_, rfl, _⟩
      · obtain ⟨others, rfl⟩ := List.head?_eq_some_iff.mp head
        rw [List.isEmpty_cons, Bool.not_false, Bool.or_true]
      · rfl
    rw [noColon, seen, Option.isNone_none, Bool.true_and, Bool.true_and]
    simp only [pure_bind, colon, decide_false, Bool.false_eq_true, if_false]
    rw [instruction_statementSpec]
    exact restored_through start there

/-- The specification of one round of the loop: a statement is read and performed,
or the failure has its line, or it is the fault of a conversion. -/
theorem parseStatement_through (visible : token.type ≠ .Newline)
    (scans : Scans source clean ends line parser (members, token :: rest)) :
    Through source clean ends line (statementFault emit clean members (token :: rest) = true)
    (parseStatement emit parser)
      (statementSpec emit members (readStatement members.section_ (token :: rest))) := by
  unfold parseStatement
  refine .bind_ok rfl ?_
  obtain ⟨after, read, tokenLine, further⟩ := scans.nextToken
  have there := further.visible visible
  refine .bind_ok read ?_
  rw [readStatement_cons]
  refine .ite (fun data => ?_) (fun notData => .ite (fun code => ?_) (fun notCode => .get ?_))
  · have quiet : statementFault emit clean members (token :: rest) = false := if_pos (.inr (.inl data.2))
    rw [if_neg (not_not_intro data.1), if_pos data.2, quiet]
    exact enterSection_through .Data there
  · have quiet : statementFault emit clean members (token :: rest) = false := if_pos (.inr (.inr code.2))
    rw [if_neg (not_not_intro code.1), if_neg (by rw [code.2]; decide), if_pos code.2, quiet]
    exact enterSection_through .Code there
  have apart : after.members.section_ = members.section_ := congrArg Parser.section_ there.members
  have same : after.section_ = members.section_ := apart
  rw [same, statementFault]
  by_cases type : token.type = .Identifier
  · rw [if_neg (not_not_intro type), if_neg (fun text => notData ⟨type, text⟩),
      if_neg (fun text => notCode ⟨type, text⟩),
      if_neg (by
        rw [not_or, not_or]
        exact ⟨not_not_intro type, fun text => notData ⟨type, text⟩, fun text => notCode ⟨type, text⟩⟩)]
    cases members.section_ with
    | None => exact .throw ⟨_, by rw [tokenLine]⟩ Bool.false_ne_true
    | Data => exact parseDeclaration_through tokenLine type there
    | Code => exact parseCodeStatement_through type scans there
  · rw [if_pos type, if_pos (.inl type)]
    cases members.section_ with
    | None => exact .throw ⟨_, by rw [tokenLine]⟩ Bool.false_ne_true
    | Data =>
      unfold parseDeclaration
      rw [if_pos type]
      exact .bind_error rfl (.fair ⟨_, by rw [tokenLine]⟩ Bool.false_ne_true)
    | Code =>
      unfold parseCodeStatement
      rw [if_neg type]
      have failed : Through source clean ends line _ ((restoreLexer _ >>= fun _ => parseInstruction emit) _) _ :=
        restored_through scans there
      rw [instructionSpec_none (expect_of_ne type), instructionFault_of_none (expect_of_ne type)] at failed
      exact failed

/-- The same, the line of a failure aside. -/
theorem parseStatement_meets (visible : token.type ≠ .Newline)
    (represents : Represents source clean parser (members, token :: rest)) :
    Meets source clean (parseStatement emit parser)
      (statementSpec emit members (readStatement members.section_ (token :: rest))) :=
  meets_of_through (parseStatement_through visible represents.scans)

/-- The newlines in front of a statement are skipped, wherever the parser stands. -/
theorem skipNewlines_meets (represents : Represents source clean parser (members, tokens)) :
    Meets source clean (skipNewlines parser) (some ((), members, tokens.dropWhile isNewline)) := by
  have through : Through source clean _ parser.lexer.line False _ _ := skipNewlines_through represents.scans not_false
  exact meets_of_through through

/-- What is left of the members after the statements that the tokens spell. -/
def passSpec (emit : Bool) (clean : Bool) (fuel : Nat) (members : Parser) (tokens : List Token) :
    Option (Unit × Parser × List Token) :=
  if clean then
    ((readStatements fuel members.section_ tokens).bind (fun statements =>
      statements.foldlM (Statement.perform emit) members)).map (fun after => ((), after, []))
  else none

/-- Only a section name changes the section. -/
theorem section_of_performs {after : Parser} {statement : Statement}
    (performs : statement.perform emit members = some after) :
    after.section_ = statement.sectionAfter members.section_ := by
  cases statement with
  | openSection target =>
    cases performs
    rfl
  | declaration type name literal =>
    obtain ⟨dataType, _, performs⟩ := Option.bind_eq_some_iff.mp performs
    obtain ⟨value, _, performs⟩ := Option.bind_eq_some_iff.mp performs
    cases performs
    cases emit <;> rfl
  | label name =>
    cases performs
    rfl
  | instruction read =>
    obtain ⟨word, _, rfl⟩ := Option.map_eq_some_iff.mp performs
    rfl

/-- With nothing but newlines left, a pass is over. -/
theorem passSpec_nil {fuel : Nat} (ended : tokens.dropWhile isNewline = []) :
    passSpec emit true fuel members tokens = some ((), members, []) := by
  unfold passSpec
  rw [if_pos rfl, readStatements_nil ended]
  rfl

/-- A pass is its first statement and then the others. -/
theorem passSpec_cons {fuel : Nat} (here : tokens.dropWhile isNewline = token :: rest) :
    passSpec emit clean (fuel + 1) members tokens =
      (statementSpec emit members (readStatement members.section_ (token :: rest))).bind (fun left =>
        passSpec emit clean fuel left.2.1 left.2.2) := by
  cases clean with
  | false => exact (Option.bind_fun_none _).symm
  | true =>
  unfold passSpec statementSpec
  simp only [if_true]
  rw [readStatements_cons here]
  cases readStatement members.section_ (token :: rest) with
  | none => rfl
  | some read =>
    rw [Option.bind_some, Option.bind_some]
    cases performed : read.1.perform emit members with
    | none =>
      cases readStatements fuel (read.1.sectionAfter members.section_) read.2 with
      | none => rfl
      | some later =>
        rw [Option.map_some, Option.bind_some, List.foldlM_cons, performed]
        rfl
    | some after =>
      rw [Option.map_some, Option.bind_some, readStatements_dropWhile, section_of_performs performed]
      cases readStatements fuel (read.1.sectionAfter members.section_) read.2 with
      | none => rfl
      | some later =>
        rw [Option.map_some, Option.bind_some, List.foldlM_cons, performed]
        rfl

/-- A statement takes at least its first token, which bounds the statements by the
tokens. -/
theorem statementSpec_length {section_ : SourceSection} {left : Unit × Parser × List Token}
    (done : statementSpec emit members (readStatement section_ (token :: rest)) = some left) :
    left.2.2.length ≤ rest.length := by
  obtain ⟨read, found, done⟩ := Option.bind_eq_some_iff.mp done
  obtain ⟨after, _, rfl⟩ := Option.map_eq_some_iff.mp done
  exact (List.dropWhile_suffix _).length_le.trans (readStatement_consumes found).2.suffix.length_le

/-- A pass gets over a statement, to the start of the next one. -/
def Performs (emit : Bool) (view next : Parser × List Token) : Prop :=
  ∃ statement rest, readStatement view.1.section_ view.2 = some (statement, rest) ∧
    statement.perform emit view.1 = some next.1 ∧ next.2 = rest.dropWhile isNewline

/-- To get over a statement is to satisfy its specification. -/
theorem performs_iff {view next : Parser × List Token} :
    Performs emit view next ↔ statementSpec emit view.1 (readStatement view.1.section_ view.2) = some ((), next) := by
  constructor
  · rintro ⟨statement, rest, read, performed, left⟩
    rw [read, statementSpec, Option.bind_some, performed, Option.map_some, ← left]
  · intro done
    obtain ⟨read, found, done⟩ := Option.bind_eq_some_iff.mp done
    obtain ⟨after, performed, same⟩ := Option.map_eq_some_iff.mp done
    cases same
    exact ⟨read.1, read.2, found, performed, rfl⟩

/-- It leaves the pass at the next token that is not a newline. -/
theorem Performs.dropWhile {view next : Parser × List Token} (performs : Performs emit view next) :
    next.2.dropWhile isNewline = next.2 := by
  obtain ⟨statement, rest, _, _, left⟩ := performs
  rw [left]
  exact List.dropWhile_idempotent _ _

/-- A pass does not get over what it has come to, a statement or what the lexer
cannot read. -/
def Stops (emit clean : Bool) (view : Parser × List Token) : Prop :=
  (∀ next, ¬ Performs emit view next) ∧ (view.2 = [] → clean = false)

/-- An error with the line of the statement at which the pass stops. -/
def FailsInLine (emit clean : Bool) (ends : Nat) (view : Parser × List Token) (e : Exception) : Prop :=
  ∃ last line, Relation.ReflTransGen (Performs emit) view last ∧ Stops emit clean last ∧
    line + last.2.countP isNewline = ends ∧ Carries line e

/-- A pass comes to a statement whose first fault is in a converted word. -/
def ComesToFault (emit clean : Bool) (view : Parser × List Token) : Prop :=
  ∃ last, Relation.ReflTransGen (Performs emit) view last ∧ statementFault emit clean last.1 last.2 = true

variable {view next : Parser × List Token}

/-- There is no getting over the end. -/
theorem performs_nil : ¬ Performs emit (members, []) next := by
  rintro ⟨statement, rest, read, _⟩
  cases read

/-- The statement at which a pass fails is behind the ones it gets over. -/
theorem FailsInLine.head {e : Exception} (performs : Performs emit view next)
    (fails : FailsInLine emit clean ends next e) : FailsInLine emit clean ends view e := by
  obtain ⟨last, line, comes, stops, lines, carries⟩ := fails
  exact ⟨last, line, .head performs comes, stops, lines, carries⟩

/-- Whether a pass comes to such a statement is decided by the statement that it
is at and by the others. -/
theorem comesToFault_iff_of_performs (performs : Performs emit view next)
    (sound : ¬ statementFault emit clean view.1 view.2 = true) :
    ComesToFault emit clean view ↔ ComesToFault emit clean next := by
  constructor
  · rintro ⟨last, comes, fault⟩
    rcases comes.cases_head with rfl | ⟨next', performs', comes⟩
    · exact absurd fault sound
    · have same := (performs_iff.mp performs').symm.trans (performs_iff.mp performs)
      cases Option.some.inj same
      exact ⟨last, comes, fault⟩
  · rintro ⟨last, comes, fault⟩
    exact ⟨last, .head performs comes, fault⟩

/-- A pass that does not get over its first statement comes to no other. -/
theorem comesToFault_iff_of_stops (stops : ∀ next, ¬ Performs emit view next) :
    ComesToFault emit clean view ↔ statementFault emit clean view.1 view.2 = true := by
  constructor
  · rintro ⟨last, comes, fault⟩
    rcases comes.cases_head with rfl | ⟨next, performs, _⟩
    · exact fault
    · exact absurd performs (stops next)
  · intro fault
    exact ⟨view, .refl, fault⟩

/-- At the end there is no fault to come to. -/
theorem not_comesToFault_nil : ¬ ComesToFault emit clean (members, []) := by
  rw [comesToFault_iff_of_stops (fun _ => performs_nil)]
  exact Bool.false_ne_true

/-- A pass, against its specification: it fails with the line of the statement
at which it stops, or without a line if a conversion is to blame. -/
abbrev Passes {α : Type} (source : Text) (clean emit : Bool) (ends : Nat) (view : Parser × List Token)
    (result : EStateM.Result Exception Parser α) (spec : Option (α × Parser × List Token)) : Prop :=
  Reports (Represents source clean) (FailsInLine emit clean ends view) Unlocated (fun _ _ => False)
    (ComesToFault emit clean view) result spec

/-- The line of a failure aside, a pass meets its specification. -/
theorem meets_of_passes {α : Type} {result : EStateM.Result Exception Parser α}
    {spec : Option (α × Parser × List Token)}
    (passes : Passes source clean emit ends view result spec) : Meets source clean result spec :=
  passes.agrees (fun _ _ represents => represents) (fun _ _ impossible => impossible.elim)

/-- A pass over a statement and the ones behind it. -/
theorem Passes.statement {g : Unit → Parse Unit} {spec : Option (Unit × Parser × List Token)}
    (visible : token.type ≠ .Newline)
    (scans : Scans source clean ends line parser (members, token :: rest))
    (stop : (∀ next, ¬ Performs emit (members, token :: rest) next) → spec = none)
    (go : ∀ next after line, Performs emit (members, token :: rest) next → Scans source clean ends line after next →
      Passes source clean emit ends next (g () after) spec)
    (late : clean = false → spec = none) :
    Passes source clean emit ends (members, token :: rest) ((parseStatement emit >>= g) parser) spec := by
  change Passes source clean emit ends (members, token :: rest) (EStateM.bind (parseStatement emit) g parser) spec
  unfold EStateM.bind
  have through : Through source clean ends line _ (parseStatement emit parser) _ := parseStatement_through visible scans
  generalize known : statementSpec emit members (readStatement members.section_ (token :: rest)) = done at through
  have stops : done = none → ∀ next, ¬ Performs emit (members, token :: rest) next := by
    intro none next performs
    rw [performs_iff, known, none] at performs
    cases performs
  generalize parseStatement emit parser = result at through
  cases through with
  | ok related blameless =>
    obtain ⟨line', there⟩ := related
    have performs : Performs emit (members, token :: rest) _ := performs_iff.mpr known
    exact (go _ _ line' performs there).mono (fun _ fails => fails.head performs)
      (comesToFault_iff_of_performs performs blameless)
  | fair carries blameless =>
    rw [stop (stops rfl)]
    exact .fair ⟨_, line, .refl, ⟨stops rfl, fun nothing => by cases nothing⟩, scans.ending, carries⟩
      (mt (comesToFault_iff_of_stops (stops rfl)).mp blameless)
  | foul unlocated blamed =>
    rw [stop (stops rfl)]
    exact .foul unlocated ((comesToFault_iff_of_stops (stops rfl)).mpr blamed)
  | @late _ _ _ next is blameless =>
    obtain ⟨broken, nothing, carries⟩ := is
    obtain ⟨members', left⟩ := next
    obtain rfl : left = [] := nothing
    have performs : Performs emit (members, token :: rest) _ := performs_iff.mpr known
    rw [late broken]
    exact .fair ⟨_, ends, .single performs, ⟨fun _ => performs_nil, fun _ => broken⟩, rfl, carries⟩
      (mt (comesToFault_iff_of_performs performs blameless).mp not_comesToFault_nil)

/-- The condition of the loop: a peek that tells the end from another token. -/
theorem peek_unless_end {α : Type} {x y : Parse α} {spec : Option (α × Parser × List Token)}
    (scans : Scans source clean ends line parser (members, tokens))
    (broken : clean = false → spec = none)
    (more : ∀ token rest after, tokens = token :: rest → Scans source clean ends line after (members, tokens) →
      Passes source clean emit ends (members, tokens.dropWhile isNewline) (x after) spec)
    (ended : ∀ after, tokens = [] → clean = true → Scans source clean ends line after (members, tokens) →
      Passes source clean emit ends (members, tokens.dropWhile isNewline) (y after) spec) :
    Passes source clean emit ends (members, tokens.dropWhile isNewline)
      ((peekToken >>= fun token => if token.type ≠ .End then x else y) parser) spec := by
  refine peekToken_bind scans ?_ ?_
  · rintro e rfl unread carries
    have ending := scans.ending
    rw [broken unread]
    exact .fair ⟨_, line, .refl, ⟨fun _ => performs_nil, fun _ => unread⟩, ending, carries⟩ not_comesToFault_nil
  intro token after there head
  rcases head with head | ⟨empty, whole, atEnd⟩
  · obtain ⟨rest, rfl⟩ := List.head?_eq_some_iff.mp head
    have notEnd : token.type ≠ .End := scans.here.streams.1
    rw [if_pos notEnd]
    exact more token rest after rfl there
  · rw [if_neg (not_not_intro atEnd)]
    exact ended after empty whole there

/-- The newlines between two statements, at which a pass may stop for what the lexer
cannot read behind them. -/
theorem skipNewlines_bind {α : Type} {g : Unit → Parse α} {spec : Option (α × Parser × List Token)}
    (scans : Scans source clean ends line parser (members, tokens)) (broken : clean = false → spec = none)
    (go : ∀ after line, Scans source clean ends line after (members, tokens.dropWhile isNewline) →
      Passes source clean emit ends (members, tokens.dropWhile isNewline) (g () after) spec) :
    Passes source clean emit ends (members, tokens.dropWhile isNewline) ((skipNewlines >>= g) parser) spec := by
  change Passes source clean emit ends _ (EStateM.bind skipNewlines g parser) spec
  unfold EStateM.bind
  have through : Through source clean ends line False _ _ := skipNewlines_through scans not_false
  generalize skipNewlines parser = result at through
  cases through with
  | ok related _ =>
    obtain ⟨line', there⟩ := related
    exact go _ line' there
  | late is _ =>
    obtain ⟨unread, nothing, carries⟩ := is
    have nothing : tokens.dropWhile isNewline = [] := nothing
    rw [broken unread, nothing]
    exact .fair ⟨_, ends, .refl, ⟨fun _ => performs_nil, fun _ => unread⟩, rfl, carries⟩ not_comesToFault_nil

/-- A source that cannot be read to its end has no meaning. -/
theorem passSpec_unread {fuel : Nat} (unread : clean = false) : passSpec emit clean fuel members tokens = none := by
  rw [unread]
  rfl

/-- The loop over statements; where the source cannot be read to its end the
loop does not return. -/
theorem parseProgramLoop_passes {fuel fuel' : Nat} (scans : Scans source clean ends line parser (members, tokens))
    (enough : tokens.length < fuel) (enough' : tokens.length ≤ fuel') :
    Passes source clean emit ends (members, tokens.dropWhile isNewline) (parseProgramLoop emit fuel parser)
      (passSpec emit clean fuel' members tokens) := by
  induction fuel generalizing fuel' parser members tokens line with
  | zero => exact absurd enough (Nat.not_lt_zero _)
  | succ fuel ih =>
    unfold parseProgramLoop
    refine peek_unless_end scans passSpec_unread ?_ ?_
    swap
    · rintro after rfl rfl there
      rw [passSpec_nil rfl]
      exact .pure there.toRepresents not_comesToFault_nil
    intro first others after _ there
    refine skipNewlines_bind there passSpec_unread ?_
    intro after' line' there'
    have shorter : (tokens.dropWhile isNewline).length ≤ tokens.length := (List.dropWhile_suffix _).length_le
    have twice : (tokens.dropWhile isNewline).dropWhile isNewline = tokens.dropWhile isNewline :=
      List.dropWhile_idempotent _ _
    generalize left : tokens.dropWhile isNewline = visible at shorter there' twice
    rw [← twice]
    refine peek_unless_end there' passSpec_unread ?_ ?_
    swap
    · rintro after'' rfl rfl there''
      rw [passSpec_nil left]
      exact .pure there''.toRepresents not_comesToFault_nil
    rintro token rest after'' rfl there''
    rw [twice]
    rw [List.length_cons] at shorter
    obtain ⟨fuel', rfl⟩ : ∃ count, fuel' = count + 1 := ⟨fuel' - 1, by omega⟩
    have notNewline : token.type ≠ .Newline := by
      intro newline
      have same := congrArg List.length twice
      rw [List.dropWhile_cons_of_pos (isNewline_iff.mpr newline), List.length_cons] at same
      have fewer : (rest.dropWhile isNewline).length ≤ rest.length := (List.dropWhile_suffix _).length_le
      omega
    refine Passes.statement notNewline there'' ?_ ?_ passSpec_unread
    · intro stops
      rw [passSpec_cons left]
      refine Option.bind_eq_none_iff.mpr (fun done known => ?_)
      exact absurd (performs_iff.mpr known) (stops done.2)
    · intro next last line'' performs beyond
      have known := performs_iff.mp performs
      have further := statementSpec_length known
      rw [passSpec_cons left, known, Option.bind_some]
      have fewer : next.2.length ≤ rest.length := further
      have others : Passes source clean emit ends _ _ (passSpec emit clean fuel' next.1 next.2) :=
        ih beyond (by omega) (by omega)
      rw [performs.dropWhile] at others
      exact others

/-- A pass from the start of the tokens. There are more characters than tokens, so
the loop has the rounds it needs. -/
theorem parseProgram_passes (scans : Scans source clean ends line parser (members, tokens)) :
    Passes source clean emit ends ({ members with section_ := .None }, tokens.dropWhile isNewline)
    (parseProgram emit parser)
      (passSpec emit clean tokens.length { members with section_ := .None } tokens) := by
  unfold parseProgram
  have entered := scans.modify (f := fun parser => { parser with section_ := .None }) rfl rfl
  refine .bind_ok rfl (skipNewlines_bind entered passSpec_unread ?_)
  intro after line' there
  have shorter : (tokens.dropWhile isNewline).length ≤ tokens.length := (List.dropWhile_suffix _).length_le
  have same : passSpec emit clean tokens.length { members with section_ := .None } (tokens.dropWhile isNewline) =
      passSpec emit clean tokens.length { members with section_ := .None } tokens := by
    unfold passSpec
    rw [readStatements_dropWhile]
  have twice : (tokens.dropWhile isNewline).dropWhile isNewline = tokens.dropWhile isNewline :=
    List.dropWhile_idempotent _ _
  rw [← same]
  have loop : Passes source clean emit ends _ _ _ :=
    parseProgramLoop_passes there (Nat.lt_succ_of_le there.here.length_le) shorter
  rw [twice] at loop
  exact .get loop

/-- The line of a failure aside. -/
theorem parseProgram_meets (represents : Represents source clean parser (members, tokens)) :
    Meets source clean (parseProgram emit parser)
      (passSpec emit clean tokens.length { members with section_ := .None } tokens) :=
  meets_of_passes (parseProgram_passes represents.scans)

/-- With as many rounds as there are tokens, a pass is a fold over the statements
that the tokens spell. -/
theorem passSpec_eq (emit : Bool) (clean : Bool) (members : Parser) (tokens : List Token) :
    passSpec emit clean tokens.length { members with section_ := .None } tokens =
      ((if clean then readStatements tokens.length .None tokens else none).bind (pass emit members)).map
        (fun after => ((), after, [])) := by
  cases clean <;> rfl

/-- The two passes over the statements, once the first has succeeded. -/
theorem translate_of_pass {statements : List Statement} {first : Parser}
    (passed : pass false { lexer := { source := [] } } statements = some first) :
    Source.translate statements =
      (pass true { first with codeAddress := 0, code := [] } statements).map (fun second =>
        { code := second.code, data := first.dataImage }) := by
  unfold Source.translate
  rw [passed]
  change (pass true { first with codeAddress := 0, code := [] } statements).bind (fun second =>
    some ({ code := second.code, data := first.dataImage } : AssembledProgram)) = _
  cases pass true { first with codeAddress := 0, code := [] } statements <;> rfl

/-- The second pass makes the code from the statements and the data image from the
symbols of the first. -/
theorem secondPass_meets {statements : Option (List Statement)}
    (read : (if clean then readStatements tokens.length .None tokens else none) = statements)
    (represents : Represents source clean parser (members, tokens)) :
    Agrees (clean = false) (fun _ (_ : Unit) => True) (secondPass parser)
      ((statements.bind (pass true { members with codeAddress := 0, code := [] })).map (fun second =>
        ({ code := second.code, data := members.dataImage }, ()))) := by
  unfold secondPass
  have emptied := represents.modify (f := fun parser => { parser with codeAddress := 0, code := [] }) rfl rfl
  refine .bind_ok rfl (.get ?_)
  have image : (dataImage { parser with codeAddress := 0, code := [] }) = members.dataImage := by
    have apart : parser.members = members := represents.members
    rw [← apart]
    rfl
  have meets : Meets source clean (parseProgram true { parser with codeAddress := 0, code := [] }) _ :=
    parseProgram_meets emptied
  rw [passSpec_eq, read] at meets
  refine meets.bind ?_ ?_
  · intro none
    rw [Option.map_eq_none_iff.mp none]
    rfl
  · intro _ second view found there
    obtain ⟨after, passed, same⟩ := Option.map_eq_some_iff.mp found
    cases same
    have apart : second.members.code = after.code := congrArg Parser.code there.members
    have code : second.code = after.code := apart
    rw [passed, image, Option.map_some, ← code]
    exact .get (.pure trivial)

/-- Both passes, from a fresh lexer on the source. -/
theorem parse_meets (start : Lexer.At clean { source := source } tokens) :
    Agrees (clean = false) (fun _ (_ : Unit) => True) (parse { lexer := { source := [] } } source)
      (((if clean then readStatements tokens.length .None tokens else none).bind Source.translate).map
        (fun program => (program, ()))) := by
  have represents : Represents source clean { lexer := { source := source } } ({ lexer := { source := [] } }, tokens) :=
    ⟨start, rfl, rfl⟩
  have meets : Meets source clean (parseProgram false { lexer := { source := source } }) _ :=
    parseProgram_meets represents
  rw [passSpec_eq] at meets
  generalize read : (if clean then readStatements tokens.length .None tokens else none) = statements at meets
  unfold parse firstPass
  refine meets.bind ?_ ?_
  · intro none
    cases statements with
    | none => rfl
    | some statements =>
      have failed : pass false { lexer := { source := [] } } statements = Option.none := Option.map_eq_none_iff.mp none
      rw [Option.bind_some, Source.translate, failed]
      rfl
  intro _ first view found there
  obtain ⟨after, passed, same⟩ := Option.map_eq_some_iff.mp found
  cases same
  obtain ⟨statements, rfl, passed⟩ := Option.bind_eq_some_iff.mp passed
  refine .bind_ok rfl ?_
  have reset := start.reset there.source
  have again : Represents source clean
      { first with lexer := first.lexer.reset, section_ := .None, codeAddress := 0, code := [] }
      ({ after with section_ := .None, codeAddress := 0, code := [] }, tokens) := by
    refine ⟨reset, there.source, ?_⟩
    have apart : first.members = after := there.members
    rw [← apart]
    rfl
  have second := secondPass_meets read again
  rw [Option.bind_some, translate_of_pass passed, Option.map_map]
  exact second

/-- Where the tokens of a source are statements, the parser makes of it what
the two passes over the statements do, and it rejects every other source. -/
theorem assemble_toOption (source : Text) :
    (assemble source).toOption = (Source.read source).bind Source.translate := by
  obtain ⟨clean, tokens, start, read⟩ := Lexer.exists_at source
  have meets := parse_meets start
  have spelled : Source.read source = if clean then readStatements tokens.length .None tokens else none := by
    unfold Source.read
    rw [read]
    cases clean <;> rfl
  rw [← spelled] at meets
  unfold assemble
  generalize parse { lexer := { source := [] } } source = result at meets
  generalize known : ((Source.read source).bind Source.translate).map (fun program => (program, ())) = spec at meets
  cases meets with
  | ok _ =>
    obtain ⟨program, is, same⟩ := Option.map_eq_some_iff.mp known
    cases same
    exact is.symm
  | failed => exact (Option.map_eq_none_iff.mp known).symm
  | interrupted broken =>
    rw [spelled, broken]
    rfl

end Parser

end VirtualMachine
