import VirtualMachine.Assembler.ProgramParsing

namespace VirtualMachine

namespace Source

open VirtualMachine.Parser Lexer ErrorState

/-- A statement that a pass gets over, with no token behind it. -/
def Accepted (emit : Bool) (members : Parser) (tokens : List Token) : Prop :=
  ∃ statement, readStatement members.section_ tokens = some (statement, []) ∧
    (statement.perform emit members).isSome = true

/-- The beginning of such a statement. -/
def Begins (emit : Bool) (members : Parser) (front : List Token) : Prop :=
  ∃ more, Accepted emit members (front ++ more)

/-- The members with which a pass starts; the second one needs the first. -/
def passStart (source : Text) : Bool → Option Parser
  | false => some { lexer := { source := [] } }
  | true =>
    ((Source.read source).bind (pass false { lexer := { source := [] } })).map (fun first =>
      { first with section_ := .None, codeAddress := 0, code := [] })

/-- A pass stops at a statement because of this token: a statement can begin
with the tokens before it, but not with this one as well. Behind the last token
there is the end of the source, or the character that the lexer rejects. -/
def Spoils (source : Text) (index : Nat) : Prop :=
  ∃ emit start members front rest, passStart source emit = some start ∧
    Relation.ReflTransGen (Performs emit) (start, (tokensOf source).dropWhile isNewline) (members, front ++ rest) ∧
    Stops emit (readable source) (members, front ++ rest) ∧ Begins emit members front ∧
    (∀ token later, rest = token :: later → ¬ Begins emit members (front ++ [token])) ∧
    index + rest.length = (tokensOf source).length

/-- An assembler error with the line of the token that has caused it. -/
def Located (source : Text) (e : Exception) : Prop :=
  ∃ index position, Spoils source index ∧ Lexer.tokenStart source index = some position ∧
    Carries (lineAt source position) e

/-- A pass comes to a statement whose first fault is a register, a number, a
mnemonic or a system call that there is none of. -/
def HasUnlocatedFault (source : Text) : Prop :=
  ∃ emit start, passStart source emit = some start ∧
    ComesToFault emit (readable source) (start, (tokensOf source).dropWhile isNewline)

variable {source : Text} {emit clean : Bool} {members : Parser} {tokens front rest : List Token} {token : Token}

theorem not_located_of_unlocated {e : Exception} (unlocated : Unlocated e) : ¬ Located source e := by
  rintro ⟨_, position, _, _, _, rfl⟩
  rcases unlocated with same | same | ⟨_, same⟩
  · cases same
  · cases same
  · have zero : lineAt source position = 0 := (Exception.assemblerError.inj same).1
    exact absurd zero (Nat.succ_ne_zero _)

theorem begins_nil : Begins emit members [] :=
  ⟨[{ type := .Identifier, text := "DATA".toList }, { type := .Colon }], .openSection .Data, rfl, rfl⟩

theorem newlines_of_begins (begins : Begins emit members front) : front.countP isNewline = 0 := by
  obtain ⟨more, statement, read, _⟩ := begins
  cases front with
  | nil => rfl
  | cons token front =>
    obtain ⟨type, consumes⟩ := readStatement_consumes read
    have none_ : (front ++ more).countP isNewline = 0 := consumes.newlines
    rw [List.countP_append] at none_
    rw [List.countP_cons_of_neg (mt isNewline_iff.mp (by rw [type]; decide))]
    omega

/-- The tokens go wrong at some place. -/
theorem exists_spoiled (begins : Begins emit members front) :
    ∃ front' rest', front ++ rest = front' ++ rest' ∧ Begins emit members front' ∧
      ∀ token later, rest' = token :: later → ¬ Begins emit members (front' ++ [token]) := by
  induction rest generalizing front with
  | nil => exact ⟨front, [], rfl, begins, fun _ _ impossible => by cases impossible⟩
  | cons token rest ih =>
    by_cases further : Begins emit members (front ++ [token])
    · obtain ⟨front', rest', same, found⟩ := ih further
      exact ⟨front', rest', by rw [← same, List.append_assoc, List.singleton_append], found⟩
    · refine ⟨front, token :: rest, rfl, begins, ?_⟩
      intro token' later same
      cases same
      exact further

theorem suffix_of_performs {view next : Parser × List Token} (performs : Performs emit view next) :
    next.2 <:+ view.2 := by
  obtain ⟨statement, rest, read, _, left⟩ := performs
  rw [left]
  refine (List.dropWhile_suffix _).trans ?_
  obtain ⟨members, tokens⟩ := view
  cases tokens with
  | nil => cases read
  | cons token tokens => exact (readStatement_consumes read).2.suffix.trans (List.suffix_cons _ _)

theorem suffix_of_comes {view last : Parser × List Token} (comes : Relation.ReflTransGen (Performs emit) view last) :
    last.2 <:+ view.2 := by
  induction comes with
  | refl => exact List.suffix_refl _
  | tail _ performs ih => exact (suffix_of_performs performs).trans ih

/-- The line of the statement at which a pass stops is that of the token that
spoils it. -/
theorem located_of_failsInLine {start : Parser} {e : Exception} (starts : passStart source emit = some start)
    (fails : FailsInLine emit (readable source) (1 + (tokensOf source).countP isNewline)
      (start, (tokensOf source).dropWhile isNewline) e) : Located source e := by
  obtain ⟨⟨members, tokens⟩, line, comes, stops, lines, carries⟩ := fails
  obtain ⟨front, rest, rfl, begins, spoils⟩ : ∃ front rest, tokens = front ++ rest ∧ Begins emit members front ∧
      ∀ token later, rest = token :: later → ¬ Begins emit members (front ++ [token]) :=
    exists_spoiled begins_nil
  have left : rest <:+ tokensOf source :=
    (List.suffix_append _ _).trans ((suffix_of_comes comes).trans (List.dropWhile_suffix _))
  obtain ⟨before, whole⟩ := left
  have size : before.length + rest.length = (tokensOf source).length := by rw [← whole, List.length_append]
  obtain ⟨position, starts', here⟩ :=
    Lexer.tokenStart_line (at_tokensOf source) (show before.length ≤ (tokensOf source).length by omega)
  refine ⟨before.length, position, ⟨emit, start, members, front, rest, starts, comes, stops, begins, spoils, size⟩,
    starts', ?_⟩
  have taken : (tokensOf source).take before.length = before := by rw [← whole, List.take_left]
  have counted : (tokensOf source).countP isNewline = before.countP isNewline + rest.countP isNewline := by
    rw [← whole, List.countP_append]
  have inFront := newlines_of_begins begins
  rw [List.countP_append] at lines
  rw [here, taken]
  have same : line = 1 + before.countP isNewline := by omega
  rw [← same]
  exact carries

theorem Begins.of_append {more : List Token} (begins : Begins emit members (front ++ more)) :
    Begins emit members front := by
  obtain ⟨others, accepted⟩ := begins
  rw [List.append_assoc] at accepted
  exact ⟨more ++ others, accepted⟩

theorem performs_rightUnique (emit : Bool) : Relator.RightUnique (Performs emit) := by
  intro view next next' performs performs'
  have same := (performs_iff.mp performs).symm.trans (performs_iff.mp performs')
  cases Option.some.inj same
  rfl

theorem stop_unique {view last last' : Parser × List Token} (comes : Relation.ReflTransGen (Performs emit) view last)
    (comes' : Relation.ReflTransGen (Performs emit) view last') (stops : ∀ next, ¬ Performs emit last next)
    (stops' : ∀ next, ¬ Performs emit last' next) : last = last' := by
  have alone : ∀ {one other : Parser × List Token}, Relation.ReflTransGen (Performs emit) one other →
      (∀ next, ¬ Performs emit one next) → one = other := by
    intro one other further stuck
    rcases further.cases_head with same | ⟨next, performs, _⟩
    · exact same
    · exact absurd performs (stuck next)
  rcases Relation.ReflTransGen.total_of_right_unique (performs_rightUnique emit) comes comes' with further | further
  · exact alone further stops
  · exact (alone further stops').symm

/-- A pass that accepts the source has come to its end. -/
theorem comes_of_passSpec {fuel : Nat} {after : Parser}
    (passed : passSpec emit true fuel members tokens = some ((), after, [])) :
    Relation.ReflTransGen (Performs emit) (members, tokens.dropWhile isNewline) (after, []) := by
  induction fuel generalizing members tokens with
  | zero =>
    cases left : tokens.dropWhile isNewline with
    | nil =>
      rw [passSpec_nil left] at passed
      cases passed
      exact .refl
    | cons token rest =>
      unfold passSpec readStatements at passed
      rw [left] at passed
      cases passed
  | succ fuel ih =>
    cases left : tokens.dropWhile isNewline with
    | nil =>
      rw [passSpec_nil left] at passed
      cases passed
      exact .refl
    | cons token rest =>
      rw [passSpec_cons left] at passed
      obtain ⟨⟨_, next⟩, done, passed⟩ := Option.bind_eq_some_iff.mp passed
      have performs : Performs emit (members, token :: rest) next := performs_iff.mpr done
      have others := ih passed
      rw [performs.dropWhile] at others
      exact .head performs others

theorem read_eq_tokensOf (source : Text) :
    Source.read source = if readable source then readStatements (tokensOf source).length .None (tokensOf source)
      else none := by
  rw [Source.read, tokenize_eq]
  cases readable source <;> rfl

/-- The second pass starts where the first one has not stopped. -/
theorem not_stops_of_passStart {start : Parser} {view : Parser × List Token}
    (starts : passStart source true = some start)
    (comes : Relation.ReflTransGen (Performs false) ({ lexer := { source := [] } },
      (tokensOf source).dropWhile isNewline) view) :
    ¬ Stops false (readable source) view := by
  rintro ⟨stuck, ended⟩
  obtain ⟨first, passed, _⟩ := Option.map_eq_some_iff.mp starts
  rw [read_eq_tokensOf] at passed
  cases clean : readable source with
  | false =>
    rw [clean] at passed
    cases passed
  | true =>
    rw [clean] at passed
    have spec := passSpec_eq false true { lexer := { source := [] } } (tokensOf source)
    rw [passed] at spec
    have same := stop_unique comes (comes_of_passSpec spec) stuck (fun _ => performs_nil)
    rw [same] at ended
    exact absurd (clean.symm.trans (ended rfl)) (by decide)

theorem length_of_spoiled {front' rest' : List Token} (same : front ++ rest = front' ++ rest')
    (begins : Begins emit members front) (begins' : Begins emit members front')
    (spoils : ∀ token later, rest = token :: later → ¬ Begins emit members (front ++ [token]))
    (spoils' : ∀ token later, rest' = token :: later → ¬ Begins emit members (front' ++ [token])) :
    rest.length = rest'.length := by
  have longer : ∀ {front front' rest rest' : List Token}, front' = front ++ rest → Begins emit members front' →
      (∀ token later, rest ++ rest' = token :: later → ¬ Begins emit members (front ++ [token])) → rest = [] := by
    intro front front' rest rest' whole begins spoils
    cases rest with
    | nil => rfl
    | cons token rest =>
      rw [whole, ← List.singleton_append, ← List.append_assoc] at begins
      exact absurd begins.of_append (spoils token _ rfl)
  rcases List.append_eq_append_iff.mp same with ⟨more, whole, left⟩ | ⟨more, whole, left⟩
  · rw [left] at spoils ⊢
    rw [longer whole begins' spoils, List.nil_append]
  · rw [left] at spoils' ⊢
    rw [longer whole begins spoils', List.nil_append]

/-- No two tokens spoil a source. -/
theorem Spoils.unique {index index' : Nat} (spoils : Spoils source index) (spoils' : Spoils source index') :
    index = index' := by
  obtain ⟨emit, start, members, front, rest, starts, comes, stops, begins, here, place⟩ := spoils
  obtain ⟨emit', start', members', front', rest', starts', comes', stops', begins', here', place'⟩ := spoils'
  have samePass : emit = emit' := by
    cases emit with
    | false =>
      cases emit' with
      | false => rfl
      | true =>
        cases starts
        exact absurd stops (not_stops_of_passStart starts' comes)
    | true =>
      cases emit' with
      | false =>
        cases starts'
        exact absurd stops' (not_stops_of_passStart starts comes')
      | true => rfl
  subst samePass
  cases starts.symm.trans starts'
  obtain ⟨sameMembers, same⟩ := Prod.mk.inj (stop_unique comes comes' stops.1 stops'.1)
  subst sameMembers
  have left := length_of_spoiled same begins begins' here here'
  omega

/-- The parser with which the second pass starts. -/
def secondStart (first : Parser) : Parser :=
  { first with lexer := first.lexer.reset, section_ := .None, codeAddress := 0, code := [] }

theorem assemble_of_firstPass_error {after : Parser} {e : Exception}
    (ran : parseProgram false { lexer := { source := source } } = .error e after) : assemble source = .error e := by
  have parsed : parse { lexer := { source := [] } } source = .error e after := by
    unfold parse
    change EStateM.bind (parseProgram false) _ { lexer := { source := source } } = _
    unfold EStateM.bind
    rw [ran]
  unfold assemble
  rw [parsed]

theorem parse_of_firstPass_ok {first : Parser}
    (ran : parseProgram false { lexer := { source := source } } = .ok () first) :
    parse { lexer := { source := [] } } source =
      EStateM.bind (parseProgram true) (fun _ => do return { code := (← get).code, data := first.dataImage })
        (secondStart first) := by
  unfold parse
  change EStateM.bind (parseProgram false) _ { lexer := { source := source } } = _
  unfold EStateM.bind
  rw [ran]
  rfl

theorem assemble_of_firstPass_ok {first : Parser}
    (ran : parseProgram false { lexer := { source := source } } = .ok () first) :
    (∀ e after, parseProgram true (secondStart first) = .error e after → assemble source = .error e) ∧
      (∀ second, parseProgram true (secondStart first) = .ok () second → ∃ program, assemble source = .ok program) := by
  have parsed := parse_of_firstPass_ok ran
  unfold EStateM.bind at parsed
  constructor
  · intro e after failed
    rw [failed] at parsed
    unfold assemble
    rw [parsed]
  · intro second passed
    rw [passed] at parsed
    unfold assemble
    rw [parsed]
    exact ⟨_, rfl⟩

/-- A rejection is located, unless a pass has come to such a fault; then it is
not. -/
theorem located_iff_of_passes {start : Parser} {result : EStateM.Result Exception Parser Unit}
    {spec : Option (Unit × Parser × List Token)} {e : Exception} {after : Parser}
    (starts : passStart source emit = some start)
    (passes : Passes source (readable source) emit (1 + (tokensOf source).countP isNewline)
      (start, (tokensOf source).dropWhile isNewline) result spec) (failed : result = .error e after) :
    Located source e ↔ ¬ ComesToFault emit (readable source) (start, (tokensOf source).dropWhile isNewline) := by
  cases passes with
  | ok _ _ => cases failed
  | fair fails blameless =>
    cases failed
    exact iff_of_true (located_of_failsInLine starts fails) blameless
  | foul unlocated blamed =>
    cases failed
    exact iff_of_false (not_located_of_unlocated unlocated) (not_not_intro blamed)
  | late impossible _ => exact impossible.elim

theorem firstPass_passes (source : Text) :
    Passes source (readable source) false (1 + (tokensOf source).countP isNewline)
      ({ lexer := { source := [] } }, (tokensOf source).dropWhile isNewline)
      (parseProgram false { lexer := { source := source } })
      (((if readable source then readStatements (tokensOf source).length .None (tokensOf source) else none).bind
        (pass false { lexer := { source := [] } })).map (fun after => ((), after, []))) := by
  have scans : Scans source (readable source)
    (1 + (tokensOf source).countP isNewline) 1 { lexer := { source := source } }
      ({ lexer := { source := [] } }, tokensOf source) := ⟨⟨at_tokensOf source, rfl, rfl⟩, rfl, rfl⟩
  have passes : Passes source _ false _ _ _ _ := parseProgram_passes scans
  rw [passSpec_eq] at passes
  exact passes

theorem hasUnlocatedFault_iff :
    HasUnlocatedFault source ↔
      ComesToFault false (readable source) ({ lexer := { source := [] } }, (tokensOf source).dropWhile isNewline) ∨
        ∃ start, passStart source true = some start ∧
          ComesToFault true (readable source) (start, (tokensOf source).dropWhile isNewline) := by
  constructor
  · rintro ⟨emit, start, starts, fault⟩
    cases emit with
    | false =>
      cases starts
      exact .inl fault
    | true => exact .inr ⟨start, starts, fault⟩
  · rintro (fault | ⟨start, starts, fault⟩)
    · exact ⟨false, _, rfl, fault⟩
    · exact ⟨true, start, starts, fault⟩

/-- What the second pass makes of the source, once the first one has accepted it. -/
theorem secondPass_passes {first : Parser} (ran : parseProgram false { lexer := { source := source } } = .ok () first) :
    ∃ start spec, passStart source true = some start ∧
      ¬ ComesToFault false (readable source) ({ lexer := { source := [] } }, (tokensOf source).dropWhile isNewline) ∧
      Passes source (readable source) true (1 + (tokensOf source).countP isNewline)
        (start, (tokensOf source).dropWhile isNewline) (parseProgram true (secondStart first)) spec := by
  have passes := firstPass_passes source
  rw [← read_eq_tokensOf, ran] at passes
  generalize known : ((Source.read source).bind _).map _ = spec at passes
  cases passes with
  | ok represents blameless =>
    obtain ⟨after, passed, same⟩ := Option.map_eq_some_iff.mp known
    cases same
    have members : (secondStart first).members = { after with section_ := .None, codeAddress := 0, code := [] } := by
      have apart : first.members = after := represents.members
      rw [← apart]
      rfl
    have scans : Scans source (readable source) (1 + (tokensOf source).countP isNewline) 1 (secondStart first)
        ({ after with section_ := .None, codeAddress := 0, code := [] }, tokensOf source) :=
      ⟨⟨(at_tokensOf source).reset represents.source, represents.source, members⟩, rfl, rfl⟩
    refine ⟨{ after with section_ := .None, codeAddress := 0, code := [] }, _, ?_, blameless, parseProgram_passes scans⟩
    unfold passStart
    dsimp only
    rw [passed]
    rfl

/-- Every rejection of a source is an assembler error with the line of the token
that has caused it, exactly when no pass comes to a word that is converted
without its line. -/
theorem rejections_located_iff (source : Text) :
    (∀ e, assemble source = .error e → Located source e) ↔ ¬ HasUnlocatedFault source := by
  rw [hasUnlocatedFault_iff]
  cases firstRan : parseProgram false { lexer := { source := source } } with
  | error e after =>
    have passes := firstPass_passes source
    have located := located_iff_of_passes rfl passes firstRan
    have noSecond : passStart source true = none := by
      rw [← read_eq_tokensOf, firstRan] at passes
      generalize known : ((Source.read source).bind _).map _ = spec at passes
      have stopped : spec = none := by
        cases passes with
        | fair _ _ => rfl
        | foul _ _ => rfl
        | late impossible _ => exact impossible.elim
      rw [stopped] at known
      unfold passStart
      dsimp only
      rw [Option.map_eq_none_iff.mp known]
      rfl
    rw [noSecond]
    have rejected := assemble_of_firstPass_error firstRan
    constructor
    · rintro all (fault | ⟨_, impossible, _⟩)
      · exact located.mp (all e rejected) fault
      · cases impossible
    · intro sound e' rejected'
      rw [rejected] at rejected'
      cases rejected'
      exact located.mpr (fun fault => sound (.inl fault))
  | ok _ first =>
    obtain ⟨start, spec, starts, blameless, passes⟩ := secondPass_passes firstRan
    obtain ⟨rejects, accepts⟩ := assemble_of_firstPass_ok firstRan
    cases secondRan : parseProgram true (secondStart first) with
    | error e after =>
      have located := located_iff_of_passes starts passes secondRan
      have rejected := rejects e after secondRan
      constructor
      · rintro all (fault | ⟨start', starts', fault⟩)
        · exact blameless fault
        · cases starts.symm.trans starts'
          exact located.mp (all e rejected) fault
      · intro sound e' rejected'
        rw [rejected] at rejected'
        cases rejected'
        exact located.mpr (fun fault => sound (.inr ⟨start, starts, fault⟩))
    | ok _ second =>
      obtain ⟨program, accepted⟩ := accepts second secondRan
      rw [secondRan] at passes
      constructor
      · rintro _ (fault | ⟨start', starts', fault⟩)
        · exact blameless fault
        · cases starts.symm.trans starts'
          cases passes with
          | ok _ blameless' => exact blameless' fault
      · intro _ e rejected
        rw [accepted] at rejected
        cases rejected

/-- A number without digits. -/
def pushMinus : Text := "CODE:\npush -\n".toList

theorem rejections_located_fails_for_pushMinus : ¬ ∀ source e, assemble source = .error e → Located source e := by
  intro located
  have rejected : assemble pushMinus = .error .invalidArgument := by decide +kernel
  exact not_located_of_unlocated (.inl rfl) (located pushMinus .invalidArgument rejected)

example : assemble "CODE:\ninc r16\n".toList = .error (.assemblerError 0 "register out of range: r16") := by
  decide +kernel

end Source

end VirtualMachine
