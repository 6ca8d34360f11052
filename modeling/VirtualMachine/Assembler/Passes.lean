import VirtualMachine.Assembler.Rendering
import VirtualMachine.Assembler.Translation

namespace VirtualMachine

namespace Parser

/-- The loop of `parseProgram`, left at its top after this many statements. -/
def parseStatements (emit : Bool) : Nat → Parse Unit
  | 0 => pure ()
  | count + 1 => do
    if (← peekToken).type ≠ .End then
      skipNewlines
      if (← peekToken).type ≠ .End then
        parseStatement emit
        parseStatements emit count

def parseProgramTo (emit : Bool) (count : Nat) : Parse Unit := do
  modify (fun parser => { parser with section_ := .None })
  skipNewlines
  parseStatements emit count

/-- The parser in its first pass over a source, after this many statements. -/
def firstPassTo (source : Text) (count : Nat) : EStateM.Result Exception Parser Unit :=
  parseProgramTo false count { lexer := { source := source } }

/-- The parser in its second pass, after this many statements. -/
def secondPassTo (source : Text) (count : Nat) : EStateM.Result Exception Parser Unit :=
  let passes : Parse Unit := do
    firstPass
    modify (fun parser => { parser with
      lexer := parser.lexer.reset, section_ := .None, codeAddress := 0, code := [] })
    modify (fun parser => { parser with codeAddress := 0, code := [] })
    parseProgramTo true count
  passes { lexer := { source := source } }

open ErrorState Source

variable {source : Text} {emit : Bool} {parser members : Parser} {tokens : List Token} {statements : List Statement}

/-- The tokens that are left behind this many statements. -/
def tokensAfter : Nat → SourceSection → List Token → List Token
  | 0, _, tokens => tokens
  | count + 1, section_, tokens =>
    match readStatement section_ (tokens.dropWhile isNewline) with
    | none => []
    | some (statement, rest) => tokensAfter count (statement.sectionAfter section_) (rest.dropWhile isNewline)

theorem peek_meets {x y : Parse Unit} {spec : Option (Unit × Parser × List Token)}
    (represents : Represents source true parser (members, tokens))
    (more : ∀ token rest after, tokens = token :: rest → Represents source true after (members, tokens) →
      Meets source true (x after) spec)
    (ended : ∀ after, tokens = [] → Represents source true after (members, tokens) → Meets source true (y after) spec) :
    Meets source true ((peekToken >>= fun token => if token.type ≠ .End then x else y) parser) spec := by
  rcases represents.peekToken with ⟨_, _, _, impossible⟩ | ⟨token, after, ran, there, _, head⟩
  · cases impossible
  refine .bind_ok ran ?_
  rcases head with head | ⟨empty, _, atEnd⟩
  · obtain ⟨rest, rfl⟩ := List.head?_eq_some_iff.mp head
    have notEnd : token.type ≠ .End := represents.here.streams.1
    rw [if_pos notEnd]
    exact more token rest after rfl there
  · rw [if_neg (not_not_intro atEnd)]
    exact ended after empty there

/-- Where the tokens are statements, the loop performs them one by one. -/
theorem parseStatements_meets {count fuel : Nat} (represents : Represents source true parser (members, tokens))
    (read : readStatements fuel members.section_ tokens = some statements) :
    Meets source true (parseStatements emit count parser)
      (((statements.take count).foldlM (Statement.perform emit) members).map (fun after =>
        ((), after, tokensAfter count members.section_ tokens))) := by
  induction count generalizing fuel parser members tokens statements with
  | zero => exact .pure represents
  | succ count ih =>
    have ended : tokens.dropWhile isNewline = [] →
        ((statements.take (count + 1)).foldlM (Statement.perform emit) members).map (fun after =>
          ((), after, tokensAfter (count + 1) members.section_ tokens)) = some ((), members, []) := by
      intro nothing
      rw [readStatements_nil nothing] at read
      cases read
      rw [tokensAfter, nothing]
      rfl
    unfold parseStatements
    refine peek_meets represents ?_ ?_
    swap
    · rintro after rfl there
      rw [ended rfl]
      exact .pure there
    intro first others after _ there
    refine (skipNewlines_meets there).bind (fun impossible => by cases impossible) ?_
    intro _ after' view found there'
    cases found
    generalize left : tokens.dropWhile isNewline = visible at there'
    refine peek_meets there' ?_ ?_
    swap
    · rintro after'' rfl there''
      rw [ended left]
      exact .pure there''
    rintro token rest after'' rfl there''
    have notNewline : token.type ≠ .Newline := by
      intro newline
      have stops := List.head?_dropWhile_not isNewline tokens
      rw [left] at stops
      rw [List.head?_cons] at stops
      exact Bool.false_ne_true (stops.symm.trans (isNewline_iff.mpr newline))
    cases fuel with
    | zero =>
      unfold readStatements at read
      rw [left] at read
      cases read
    | succ fuel =>
      rw [readStatements_cons left] at read
      obtain ⟨first, spelled, read⟩ := Option.bind_eq_some_iff.mp read
      obtain ⟨later, readLater, rfl⟩ := Option.map_eq_some_iff.mp read
      have meets : Meets source true (parseStatement emit after'') _ := parseStatement_meets notNewline there''
      rw [spelled, statementSpec, Option.bind_some] at meets
      rw [List.take_succ_cons, List.foldlM_cons, tokensAfter, left, spelled]
      refine meets.bind ?_ ?_
      · intro failed
        rw [Option.map_eq_none_iff.mp failed]
        rfl
      intro _ last view done beyond
      obtain ⟨next, performed, same⟩ := Option.map_eq_some_iff.mp done
      cases same
      have section_ := section_of_performs performed
      rw [← section_, ← readStatements_dropWhile] at readLater
      have others := ih beyond readLater
      rw [section_] at others
      rw [performed]
      exact others

theorem parseProgramTo_meets {count : Nat} (represents : Represents source true parser (members, tokens))
    (read : readStatements tokens.length .None tokens = some statements) :
    Meets source true (parseProgramTo emit count parser)
      ((pass emit members (statements.take count)).map (fun after =>
        ((), after, tokensAfter count .None (tokens.dropWhile isNewline)))) := by
  unfold parseProgramTo
  have entered := represents.modify (f := fun parser => { parser with section_ := .None }) rfl rfl
  refine .bind_ok rfl ((skipNewlines_meets entered).bind (fun impossible => by cases impossible) ?_)
  intro _ after view found there
  cases found
  rw [← readStatements_dropWhile] at read
  exact parseStatements_meets there read

end Parser

namespace Source

open VirtualMachine.Parser ErrorState

variable {source : Text} {program : AssembledProgram} {statements : List Statement} {first second : Parser}

/-- Both passes come to every statement with the same section and the same code
address, which in the second pass counts the words that it has emitted. -/
structure PassesAgree (source : Text) (program : AssembledProgram) (statements : List Statement) : Prop where
  reached : ∀ count, ∃ first second, firstPassTo source count = .ok () first ∧
    secondPassTo source count = .ok () second ∧
    first.section_ = second.section_ ∧ first.codeAddress = second.codeAddress ∧
    second.codeAddress.toNat = second.code.length ∧ second.code.length = (instructions (statements.take count)).length
  instructionCount : program.code.length = (instructions statements).length
  label : ∀ before name later, statements = before ++ .label name :: later → .label name ∉ before ++ later →
    ∃ address, labelTable source name = some address ∧ address.toNat = (instructions before).length

/-- The section depends on the statements only. -/
theorem section_of_run {emit : Bool} {parser after : Parser}
    (ran : statements.foldlM (Statement.perform emit) parser = some after) :
    after.section_ = statements.foldl Statement.sectionAfter parser.section_ := by
  induction statements generalizing parser with
  | nil =>
    cases ran
    rfl
  | cons statement statements ih =>
    obtain ⟨middle, performed, rest⟩ := PartialFold.cons_iff.mp ran
    rw [ih rest, section_of_performs performed, List.foldl_cons]

/-- A pass over the first statements succeeds where the whole pass does. -/
theorem pass_take {emit : Bool} {parser after : Parser} (passed : pass emit parser statements = some after)
    (count : Nat) :
    ∃ middle, pass emit parser (statements.take count) = some middle := by
  have split : statements.take count ++ statements.drop count = statements := List.take_append_drop count statements
  rw [← split] at passed
  obtain ⟨middle, ran, _⟩ := PartialFold.append_iff.mp passed
  exact ⟨middle, ran⟩

theorem instructions_take_le (statements : List Statement) (count : Nat) :
    (instructions (statements.take count)).length ≤ (instructions statements).length :=
  ((List.take_sublist count statements).filterMap _).length_le

namespace Assembled

/-- The parser in its first pass is where the pass over the statements is. -/
theorem firstPassTo_run (assembled : Assembled source program statements first second) (count : Nat) :
    ∃ parser after, firstPassTo source count = .ok () parser ∧ parser.members = after ∧
      pass false { lexer := { source := [] } } (statements.take count) = some after := by
  obtain ⟨tokens, start, read⟩ := assembled.exists_start
  have represents : Represents source true { lexer := { source := source } } ({ lexer := { source := [] } }, tokens) :=
    ⟨start, rfl, rfl⟩
  obtain ⟨after, passed⟩ := pass_take assembled.firstPass count
  have meets : Meets source true (firstPassTo source count) _ := parseProgramTo_meets represents read
  rw [passed, Option.map_some] at meets
  obtain ⟨parser, ran, there⟩ := meets.exists_ok (by decide)
  exact ⟨parser, after, ran, there.members, passed⟩

theorem secondPassTo_run (assembled : Assembled source program statements first second) (count : Nat) :
    ∃ parser after, secondPassTo source count = .ok () parser ∧ parser.members = after ∧
      pass true { first with codeAddress := 0, code := [] } (statements.take count) = some after := by
  obtain ⟨tokens, start, read⟩ := assembled.exists_start
  obtain ⟨middle, ran, members, same⟩ := assembled.firstPass_run
  obtain ⟨after, passed⟩ := pass_take assembled.secondPass count
  have again : Represents source true
    { middle with lexer := middle.lexer.reset, section_ := .None, codeAddress := 0, code := [] }
      ({ first with section_ := .None, codeAddress := 0, code := [] }, tokens) := by
    refine ⟨start.reset same, same, ?_⟩
    rw [← members]
    rfl
  have meets := @parseProgramTo_meets _ true _ _ _ _ count again read
  have passed' : pass true { first with section_ := .None, codeAddress := 0, code := [] } (statements.take count) =
    some after :=
    passed
  rw [passed', Option.map_some] at meets
  obtain ⟨parser, ran', there⟩ := meets.exists_ok (by decide)
  refine ⟨parser, after, ?_, there.members, passed⟩
  have unfolded : secondPassTo source count =
      EStateM.bind Parser.firstPass (fun _ parser => parseProgramTo true count
        { parser with lexer := parser.lexer.reset, section_ := .None, codeAddress := 0, code := [] })
          { lexer := { source := source } } := rfl
  rw [unfolded]
  unfold EStateM.bind
  rw [ran]
  exact ran'

/-- Where both passes are after the same statements. -/
theorem passes_reached (assembled : Assembled source program statements first second) (count : Nat) :
    ∃ earlier later, firstPassTo source count = .ok () earlier ∧ secondPassTo source count = .ok () later ∧
      earlier.section_ = later.section_ ∧
      earlier.codeAddress = BitVec.ofNat 32 (instructions (statements.take count)).length ∧
      later.codeAddress = BitVec.ofNat 32 (instructions (statements.take count)).length ∧
      later.code.length = (instructions (statements.take count)).length := by
  obtain ⟨earlier, after, ran, members, passed⟩ := assembled.firstPassTo_run count
  obtain ⟨later, after', ran', members', passed'⟩ := assembled.secondPassTo_run count
  have section_ : earlier.members.section_ = (statements.take count).foldl Statement.sectionAfter .None := by
    rw [members]
    exact section_of_run passed
  have section_' : later.members.section_ = (statements.take count).foldl Statement.sectionAfter .None := by
    rw [members']
    exact section_of_run passed'
  have address : earlier.members.codeAddress = 0#32 + BitVec.ofNat 32
    (instructions (statements.take count)).length := by
    rw [members]
    exact codeAddress_of_run passed
  have address' : later.members.codeAddress = 0#32 + BitVec.ofNat 32 (instructions (statements.take count)).length := by
    rw [members']
    exact codeAddress_of_run passed'
  rw [BitVec.zero_add] at address address'
  obtain ⟨words, emitted, length⟩ := code_of_run passed'
  have code : later.members.code = [] ++ words := by
    rw [members']
    exact emitted
  have count' : later.members.code.length = (instructions (statements.take count)).length := by
    rw [code, List.nil_append, length]
  exact ⟨earlier, later, ran, ran', section_.trans section_'.symm, address, address', count'⟩

end Assembled

/-- The two passes of the parser agree on an accepted source exactly when its
instructions can be counted in 32 bits. -/
theorem passes_agree_iff (accepted : assemble source = .ok program) (read : Source.read source = some statements) :
    PassesAgree source program statements ↔ (instructions statements).length < 2 ^ 32 := by
  obtain ⟨first, second, assembled⟩ := exists_assembled_of_read accepted read
  constructor
  · intro agree
    obtain ⟨first, second, _, _, _, _, counts, length⟩ := agree.reached statements.length
    rw [List.take_length] at length
    rw [← length, ← counts]
    exact second.codeAddress.isLt
  · intro few
    refine ⟨?_, assembled.code_length, ?_⟩
    · intro count
      obtain ⟨earlier, later, ran, ran', sections, address, address', length⟩ := assembled.passes_reached count
      refine ⟨earlier, later, ran, ran', sections, address.trans address'.symm, ?_, length⟩
      have fewer := instructions_take_le statements count
      rw [address', BitVec.toNat_ofNat, Nat.mod_eq_of_lt (by omega), length]
    · rintro before name later rfl once
      have label := label_of_run assembled.firstPass (fun member => once (List.mem_append_right _ member))
      refine ⟨0#32 + BitVec.ofNat 32 (instructions before).length, ?_, ?_⟩
      · rw [assembled.labelTable_eq]
        exact label
      · rw [instructions_append, List.length_append] at few
        rw [BitVec.zero_add, BitVec.toNat_ofNat, Nat.mod_eq_of_lt (by omega)]

/-- A jump over a `halt` to a label at the end. -/
def jumpOver : Text := "CODE:\njmp end\nhalt\nend: ret\n".toList

def jumpOverStatements : List Statement :=
  [.openSection .Code, .instruction ⟨"jmp".toList, [.name "end".toList]⟩, .instruction ⟨"halt".toList, []⟩,
    .label "end".toList, .instruction ⟨"ret".toList, []⟩]

theorem passes_agree_jumpOver :
    ∃ program, assemble jumpOver = .ok program ∧ PassesAgree jumpOver program jumpOverStatements := by
  have accepted : assemble jumpOver = .ok ⟨[0x0D000002, 0x17000000, 0x1B000000], []⟩ := by decide +kernel
  have read : Source.read jumpOver = some jumpOverStatements := by decide +kernel
  exact ⟨_, accepted, (passes_agree_iff accepted read).mpr (by decide)⟩

/-- This many `halt` instructions. -/
def halts (count : Nat) : List Statement :=
  .openSection .Code :: List.replicate count (.instruction ⟨"halt".toList, []⟩)

theorem instructions_halts (count : Nat) : instructions (halts count) = List.replicate count ⟨"halt".toList, []⟩ := by
  have skipped : instructions (halts count) =
      (List.replicate count (.instruction ⟨"halt".toList, []⟩)).filterMap Statement.instruction? := rfl
  rw [skipped]
  exact List.filterMap_replicate_of_some rfl

theorem read_halts (count : Nat) : Source.read (render ((halts count).map plainLine)) = some (halts count) := by
  have halt : (Item.statement (.instruction ⟨"halt".toList, []⟩)).Fits .Code := ⟨rfl, rfl, rfl⟩
  have opens : SourceSection.Code ≠ .None := by decide
  have fit : FitFrom .None ((halts count).map Item.statement) := by
    have behind := @fitFrom_replicate _ [] _ halt rfl trivial count
    rw [List.append_nil] at behind
    rw [halts, List.map_cons, List.map_replicate]
    exact ⟨opens, behind⟩
  refine read_render (List.cons_ne_nil _ _) (wellSpelled_plainLines ?_) fit
  intro statement member
  rcases List.mem_cons.mp member with rfl | member
  · decide +kernel
  · obtain rfl := List.eq_of_mem_replicate member
    decide +kernel

theorem pass_halts (emit : Bool) (parser : Parser) (count : Nat) :
    ∃ after, pass emit parser (halts count) = some after := by
  have each : ∀ (before : Parser) (statement : Statement) (rest : List Statement),
      (∀ other ∈ statement :: rest, other ∈ halts count) →
        ∃ after, statement.perform emit before = some after ∧ ∀ other ∈ rest, other ∈ halts count := by
    intro before statement rest members
    have others : ∀ other ∈ rest, other ∈ halts count :=
      fun other member => members other (List.mem_cons_of_mem _ member)
    rcases List.mem_cons.mp (members statement List.mem_cons_self) with rfl | halt
    · exact ⟨_, rfl, others⟩
    · obtain rfl := List.eq_of_mem_replicate halt
      exact ⟨_, rfl, others⟩
  obtain ⟨after, ran, _⟩ := PartialFold.succeeds (I := fun rest _ => ∀ other ∈ rest, other ∈ halts count) each
    (s := { parser with section_ := .None }) (fun _ member => member)
  exact ⟨after, ran⟩

/-- It is accepted, and has as many words. -/
theorem accepted_halts (count : Nat) :
    ∃ program, assemble (render ((halts count).map plainLine)) = .ok program ∧ program.code.length = count ∧
      program.data = [] := by
  obtain ⟨first, firstPass⟩ := pass_halts false { lexer := { source := [] } } count
  obtain ⟨second, secondPass⟩ := pass_halts true { first with codeAddress := 0, code := [] } count
  have accepted : assemble (render ((halts count).map plainLine)) =
    .ok { code := second.code, data := first.dataImage } := by
    refine accepted_of_toOption ?_
    rw [assemble_toOption, read_halts, Option.bind_some, translate_of_pass firstPass, secondPass]
    rfl
  obtain ⟨first', second', assembled⟩ := exists_assembled_of_read accepted (read_halts count)
  refine ⟨_, accepted, ?_, ?_⟩
  · rw [assembled.code_length, instructions_halts, List.length_replicate]
  · have none : declarations (halts count) = [] := by
      have skipped : declarations (halts count) =
          (List.replicate count (.instruction ⟨"halt".toList, []⟩)).filterMap Statement.declaration? := rfl
      rw [skipped]
      exact List.filterMap_replicate_of_none rfl
    have length := assembled.data_length
    rw [none] at length
    exact List.length_eq_zero_iff.mp length

/-- With 2^32 instructions the code address is back at 0. -/
theorem passes_agree_fails_for_wrappedCount :
    ¬ ∀ (source : Text) (program : AssembledProgram) (statements : List Statement), assemble source = .ok program →
        Source.read source = some statements → PassesAgree source program statements := by
  intro agree
  obtain ⟨program, accepted, _, _⟩ := accepted_halts (2 ^ 32)
  have few := (passes_agree_iff accepted (read_halts (2 ^ 32))).mp (agree _ _ _ accepted (read_halts (2 ^ 32)))
  rw [instructions_halts, List.length_replicate] at few
  exact Nat.lt_irrefl _ few

end Source

end VirtualMachine
