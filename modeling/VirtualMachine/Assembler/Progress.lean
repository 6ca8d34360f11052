import VirtualMachine.Assembler.Rejections
import VirtualMachine.Assembler.Reuse

namespace VirtualMachine

namespace Lexer

/-- The lexer is within its source, and so is what a peek has kept. -/
structure Fit (lexer : Lexer) : Prop where
  sound : lexer.Sound
  inside : lexer.position ≤ lexer.source.length

/-- The lexer is where it was, or further on in the same source. -/
structure Onward (lexer after : Lexer) : Prop where
  fit : after.Fit
  source : after.source = lexer.source
  moved : lexer.position < after.position ∨ after.cursor = lexer.cursor

/-- The lexer is strictly further on in the same source. -/
structure Beyond (lexer after : Lexer) : Prop where
  fit : after.Fit
  source : after.source = lexer.source
  moved : lexer.position < after.position

variable {lexer middle after : Lexer} {token : Token}

/-- Standing still is going on. -/
theorem Fit.onward (fit : lexer.Fit) : Onward lexer lexer := ⟨fit, rfl, .inr rfl⟩

theorem Beyond.onward (beyond : Beyond lexer after) :
    Onward lexer after := ⟨beyond.fit, beyond.source, .inl beyond.moved⟩

theorem position_of_cursor_eq (same : after.cursor = lexer.cursor) : after.position = lexer.position := by
  have positions := congrArg Lexer.position same
  exact positions

theorem source_of_cursor_eq (same : after.cursor = lexer.cursor) : after.source = lexer.source := by
  have sources := congrArg Lexer.source same
  exact sources

/-- Going on does not go back. -/
theorem Onward.position_le (onward : Onward lexer after) : lexer.position ≤ after.position := by
  rcases onward.moved with further | same
  · exact Nat.le_of_lt further
  · exact Nat.le_of_eq (position_of_cursor_eq same).symm

theorem Onward.trans (first : Onward lexer middle) (second : Onward middle after) : Onward lexer after := by
  refine ⟨second.fit, second.source.trans first.source, ?_⟩
  rcases first.moved with further | same
  · exact .inl (Nat.lt_of_lt_of_le further second.position_le)
  rcases second.moved with further | same'
  · exact .inl (position_of_cursor_eq same ▸ further)
  · exact .inr (same'.trans same)

/-- One strict step is enough for the whole to be strict. This is how a statement is
shown to take something: it takes its first token, and the rest of it goes on. -/
theorem Beyond.trans (first : Beyond lexer middle) (second : Onward middle after) : Beyond lexer after :=
  ⟨second.fit, second.source.trans first.source, Nat.lt_of_lt_of_le first.moved second.position_le⟩

/-- Where reading a token gets to: past the place it starts from, but for the
end of the source. -/
theorem readToken_position (inside : lexer.position ≤ lexer.source.length)
    (ran : lexer.readToken = .ok (token, after)) :
    after.position ≤ lexer.source.length ∧
      (lexer.position < after.position ∨ after.position = lexer.position ∧ after.line = lexer.line) ∧
      (token.type ≠ .End → lexer.position < after.position) := by
  by_cases ended : token.type = .End
  · have visible : token.type ≠ .Newline := by
      rw [ended]
      decide
    have skipped : after.position = lexer.position + skipWhitespaceLength false (lexer.source.drop lexer.position) := by
      cases readToken_passed ran with
      | ended _ _ same =>
        rw [same]
        rfl
      | newline type _ _ _ _ => exact absurd type visible
      | text _ notEnd _ _ _ _ => exact absurd ended notEnd
    have short := skipWhitespaceLength_le false (lexer.source.drop lexer.position)
    have line := (readToken_read ran).line visible
    rw [List.length_drop] at short
    refine ⟨by omega, ?_, fun notEnd => absurd ended notEnd⟩
    by_cases further : lexer.position < after.position
    · exact .inl further
    · exact .inr ⟨by omega, line⟩
  · obtain ⟨further, inside'⟩ := (readToken_read ran).progress ended
    exact ⟨inside', .inl further, fun _ => further⟩

/-- `next` goes on, and strictly so unless it returns the end of the source. -/
theorem Fit.next_onward (fit : lexer.Fit) (ran : lexer.next = .ok (token, after)) :
    Onward lexer after ∧ (token.type ≠ .End → Beyond lexer after) := by
  obtain ⟨cursor, read, rfl⟩ := next_ok fit.sound ran
  have start : lexer.cursor.position ≤ lexer.cursor.source.length := fit.inside
  obtain ⟨inside, moved, further⟩ := readToken_position start read
  have fit' : Fit { lexer with hasPeek := false, position := cursor.position, line := cursor.line } := by
    refine ⟨fun peeked => ?_, inside⟩
    cases peeked
  refine ⟨⟨fit', rfl, ?_⟩, fun notEnd => ⟨fit', rfl, further notEnd⟩⟩
  rcases moved with further | ⟨position, line⟩
  · exact .inl further
  · refine .inr ?_
    unfold Lexer.cursor
    dsimp only
    rw [position, line]
    rfl

/-- A peek goes nowhere, and what it returns is the token at the cursor. -/
theorem Fit.peek_onward (fit : lexer.Fit) (ran : lexer.peek = .ok (token, after)) :
    Onward lexer after ∧ after.cursor = lexer.cursor ∧
      ∃ cursor, lexer.cursor.readToken = .ok (token, cursor) := by
  obtain ⟨cursor, read, sound, same⟩ := peek_ok fit.sound ran
  have source : after.source = lexer.source := source_of_cursor_eq same
  have inside : after.position ≤ after.source.length := by
    rw [source, position_of_cursor_eq same]
    exact fit.inside
  exact ⟨⟨⟨sound, inside⟩, source, .inr same⟩, same, cursor, read⟩

/-- `restore` puts the lexer back to a place where it has been, and drops what was
peeked. -/
theorem Fit.restore {start : Lexer} (fit : start.Fit) (source : lexer.source = start.source) :
    (lexer.restore start.mark).Fit := by
  constructor
  · intro peeked
    cases peeked
  · have inside := fit.inside
    rw [← source] at inside
    exact inside

end Lexer

namespace Parser

open Lexer ErrorState

/-- What every function of the parser does that sets no mark. -/
def Goes (parser after : Parser) : Prop := parser.lexer.Fit → Onward parser.lexer after.lexer

/-- What a function does that takes at least one token. -/
def Gains (parser after : Parser) : Prop := parser.lexer.Fit → Beyond parser.lexer after.lexer

instance : Std.Refl Goes := ⟨fun _ fit => fit.onward⟩

instance : IsTrans Parser Goes :=
  ⟨fun _ _ _ first second fit => (first fit).trans (second (first fit).fit)⟩

variable {α β : Type} {x : Parse α} {g : α → Parse β}

/-- A gain at the start is a gain of the whole. -/
theorem Gains.bind (first : Moves Gains x) (rest : ∀ a, Moves Goes (g a)) : Moves Gains (x >>= g) :=
  first.compose (fun _ _ _ gains goes fit => (gains fit).trans (goes (gains fit).fit)) rest

theorem Gains.goes (gains : Moves Gains x) : Moves Goes x := fun s a s' ran fit => (gains s a s' ran fit).onward

/-- A function of the parser that leaves the lexer alone goes on; these lemmas
follow the source from the smallest function to the loop, with the rules for
sequences from the library. -/
theorem modify_goes {f : Parser → Parser} (lexer : ∀ parser, (f parser).lexer = parser.lexer) :
    Moves Goes (modify f : Parse PUnit) := by
  refine Moves.modify (fun parser fit => ?_)
  rw [lexer parser]
  exact fit.onward

theorem lift_goes (result : Except Exception α) : Moves Goes (lift result) := by
  cases result with
  | error e => exact Moves.throw e
  | ok value => exact Moves.pure value

/-- The parser's own `next`, which passes on the exceptions of the lexer. -/
theorem nextToken_onward {parser after : Parser} {token : Token} (fit : parser.lexer.Fit)
    (ran : nextToken parser = .ok token after) :
    Onward parser.lexer after.lexer ∧ (token.type ≠ .End → Beyond parser.lexer after.lexer) := by
  unfold nextToken at ran
  split at ran
  · cases ran
  · rename_i token lexer read
    cases ran
    have onward := fit.next_onward read
    exact onward

theorem nextToken_goes : Moves Goes nextToken := fun _ _ _ ran fit => (nextToken_onward fit ran).1

/-- Its own `peek`. -/
theorem peekToken_onward {parser after : Parser} {token : Token} (fit : parser.lexer.Fit)
    (ran : peekToken parser = .ok token after) :
    Onward parser.lexer after.lexer ∧ after.lexer.cursor = parser.lexer.cursor ∧
      ∃ cursor, parser.lexer.cursor.readToken = .ok (token, cursor) := by
  unfold peekToken at ran
  split at ran
  · cases ran
  · rename_i token lexer read
    cases ran
    have onward := fit.peek_onward read
    exact onward

theorem peekToken_goes : Moves Goes peekToken := fun _ _ _ ran fit => (peekToken_onward fit ran).1

/-- A token that is consumed has been taken. -/
theorem consume_gains {type : TokenType} (notEnd : type ≠ .End) : Moves Gains (consume type) := by
  intro parser token after ran fit
  unfold consume at ran
  obtain ⟨found, next, read, ran⟩ := exists_of_bind_ok ran
  obtain ⟨onward, beyond⟩ := nextToken_onward fit read
  by_cases same : found.type = type
  · rw [if_neg (not_not_intro same)] at ran
    cases ran
    exact beyond (same ▸ notEnd)
  · rw [if_pos same] at ran
    cases ran

theorem consume_goes {type : TokenType} (notEnd : type ≠ .End) :
    Moves Goes (consume type) := Gains.goes (consume_gains notEnd)

theorem match_goes (type : TokenType) : Moves Goes (match_ type) := by
  unfold match_
  refine peekToken_goes.bind (fun token => Moves.ite ?_ (Moves.pure _))
  exact nextToken_goes.bind (fun _ => Moves.pure _)

/-- By induction on the rounds. -/
theorem skipNewlinesLoop_goes (fuel : Nat) : Moves Goes (skipNewlinesLoop fuel) := by
  induction fuel with
  | zero => exact Moves.throw _
  | succ fuel ih => exact (match_goes _).bind (fun _ => Moves.ite ih (Moves.pure _))

theorem skipNewlines_goes : Moves Goes skipNewlines := Moves.get (fun _ => skipNewlinesLoop_goes _)

theorem emitWord_goes (emit : Bool) (word : Word) : Moves Goes (emitWord emit word) := by
  refine modify_goes (fun parser => ?_)
  cases emit <;> rfl

theorem endInstruction_goes : Moves Goes endInstruction := by
  unfold endInstruction
  exact Moves.bind (modify_goes (fun _ => rfl)) (fun _ => skipNewlines_goes)

theorem emitWord_then_goes (emit : Bool) (word : Word) : Moves Goes (emitWord emit word >>= fun _ => endInstruction) :=
  (emitWord_goes emit word).bind (fun _ => endInstruction_goes)

theorem parseRegister_goes : Moves Goes parseRegister :=
  (consume_goes (by decide)).bind (fun _ => lift_goes _)

theorem dataSymbolAddress_goes (token : Token) : Moves Goes (dataSymbolAddress token) :=
    Moves.get (fun _ => lift_goes _)

theorem labelAddress_goes (token : Token) : Moves Goes (labelAddress token) := Moves.get (fun _ => lift_goes _)

/-- A label that is resolved in the second pass only. -/
theorem target_goes (emit : Bool) (token : Token) (word : Address → Word) :
    Moves Goes (do
      if emit then
        let target ← labelAddress token
        emitWord emit (word target)
      endInstruction) :=
  Moves.ite ((labelAddress_goes token).bind (fun _ => emitWord_then_goes _ _)) endInstruction_goes

/-- A number, and what is made of it. -/
theorem number_goes {k : BitVec 16 → Parse β} (rest : ∀ imm, Moves Goes (k imm)) :
    Moves Goes (do
      let token ← consume .Number
      let imm ← lift (parseNumberToken token)
      k imm) :=
  (consume_goes (by decide)).bind (fun _ => (lift_goes _).bind rest)

/-- A memory operand behind its first bracket. -/
theorem memory_goes {k : Token → Address → Parse β} (rest : ∀ symbol offset, Moves Goes (k symbol offset)) :
    Moves Goes (do
      let symToken ← consume .Identifier
      let offset ← dataSymbolAddress symToken
      let _ ← consume .RBracket
      k symToken offset) :=
  (consume_goes (by decide)).bind (fun symbol => (dataSymbolAddress_goes symbol).bind (fun offset =>
    (consume_goes (by decide)).bind (fun _ => rest symbol offset)))

theorem parseOffset_goes : Moves Goes parseOffset :=
  (match_goes _).bind (fun _ => Moves.ite (memory_goes (fun _ _ => Moves.pure _)) (number_goes (fun _ => Moves.pure _)))

theorem parsePush_goes (emit : Bool) : Moves Goes (parsePush emit) := by
  unfold parsePush
  refine peekToken_goes.bind (fun _ => Moves.ite ?_ (peekToken_goes.bind (fun _ => Moves.ite ?_ ?_)))
  · exact parseRegister_goes.bind (fun _ => emitWord_then_goes _ _)
  · exact (consume_goes (by decide)).bind (fun token => target_goes emit token _)
  · exact number_goes (fun _ => emitWord_then_goes _ _)

theorem parseCall_goes (emit : Bool) : Moves Goes (parseCall emit) := by
  unfold parseCall
  refine (consume_goes (by decide)).bind (fun _ => (consume_goes (by decide)).bind
    (fun _ => parseOffset_goes.bind (fun _ => ?_)))
  exact Moves.ite ((lift_goes _).bind (fun _ => emitWord_then_goes _ _)) endInstruction_goes

theorem parseJump_goes (emit : Bool) (opcode : Opcode) : Moves Goes (parseJump emit opcode) :=
  (consume_goes (by decide)).bind (fun token => target_goes emit token _)

theorem parseUnary_goes (emit : Bool) (opcode : Opcode) : Moves Goes (parseUnary emit opcode) :=
  parseRegister_goes.bind (fun _ => emitWord_then_goes _ _)

theorem parseLoadStore_goes (emit : Bool) (opcode : Opcode) : Moves Goes (parseLoadStore emit opcode) :=
  parseRegister_goes.bind (fun _ => (consume_goes (by decide)).bind (fun _ =>
    parseOffset_goes.bind (fun _ => emitWord_then_goes _ _)))

theorem parseTwoOperands_goes (emit : Bool) (opcode : Opcode) : Moves Goes (parseTwoOperands emit opcode) := by
  unfold parseTwoOperands
  refine parseRegister_goes.bind (fun _ => (consume_goes (by decide)).bind (fun _ =>
    peekToken_goes.bind (fun _ => Moves.ite ?_ ((match_goes _).bind (fun _ => Moves.ite ?_ ?_)))))
  · exact parseRegister_goes.bind (fun _ => emitWord_then_goes _ _)
  · refine memory_goes (fun _ _ => Moves.ite (Moves.ite ?_ ?_) endInstruction_goes)
    · exact emitWord_then_goes _ _
    · exact (Moves.throw _).bind (fun _ => endInstruction_goes)
  · exact number_goes (fun _ => emitWord_then_goes _ _)

/-- An instruction takes at least its mnemonic. -/
theorem parseInstruction_gains (emit : Bool) : Moves Gains (parseInstruction emit) := by
  unfold parseInstruction
  refine Gains.bind (consume_gains (by decide)) (fun _ => ?_)
  refine Moves.ite (emitWord_then_goes _ _) (Moves.ite (emitWord_then_goes _ _) ?_)
  refine Moves.ite (parsePush_goes _) (Moves.ite (parseUnary_goes _ _) (Moves.ite (parseCall_goes _) ?_))
  refine (lift_goes _).bind (fun _ => ?_)
  refine Moves.ite (parseJump_goes _ _) (Moves.ite (parseUnary_goes _ _) ?_)
  exact Moves.ite (parseLoadStore_goes _ _) (Moves.ite (parseLoadStore_goes _ _) (parseTwoOperands_goes _ _))

theorem enterSection_goes (target : SourceSection) : Moves Goes (enterSection target) := by
  unfold enterSection
  refine (consume_goes (by decide)).bind (fun _ => ?_)
  exact Moves.bind (modify_goes (fun _ => rfl)) (fun _ => skipNewlines_goes)

theorem parseDeclaration_goes (emit : Bool) (token : Token) : Moves Goes (parseDeclaration emit token) := by
  unfold parseDeclaration
  refine Moves.ite ((Moves.throw _).bind (fun _ => ?_)) ?_
  all_goals
    refine (lift_goes _).bind
      (fun _ => (consume_goes (by decide)).bind (fun _ => number_goes (fun _ => Moves.ite ?_ ?_)))
    · exact Moves.bind (modify_goes (fun _ => rfl)) (fun _ => skipNewlines_goes)
    · exact skipNewlines_goes

/-- A token that does not begin a label definition is read again by the
instruction, which takes at least as much. -/
theorem parseCodeStatement_beyond {emit : Bool} {original parser after : Parser} {token : Token}
    (start : original.lexer.Fit) (read : nextToken original = .ok token parser)
    (ran : parseCodeStatement emit original.lexer.mark token parser = .ok () after) :
    Beyond original.lexer after.lexer := by
  obtain ⟨onward, beyond⟩ := nextToken_onward start read
  have again : ∀ peeked, Onward parser.lexer peeked.lexer →
      (restoreLexer original.lexer.mark >>= fun _ => parseInstruction emit) peeked = .ok () after →
      Beyond original.lexer after.lexer := by
    intro peeked further ran
    have source : peeked.lexer.source = original.lexer.source := further.source.trans onward.source
    obtain ⟨_, restored, back, ran⟩ := exists_of_bind_ok ran
    cases back
    obtain ⟨fit, source', moved⟩ := parseInstruction_gains emit _ _ _ ran (start.restore source)
    exact ⟨fit, source'.trans source, moved⟩
  unfold parseCodeStatement at ran
  by_cases identifier : token.type = .Identifier
  · simp only [identifier, if_true, pure_bind] at ran
    obtain ⟨colon, peeked, peek, ran⟩ := exists_of_bind_ok ran
    have further := peekToken_goes _ _ _ peek onward.fit
    by_cases labelled : colon.type = .Colon
    · simp only [labelled, decide_true, if_true] at ran
      obtain ⟨_, next, taken, ran⟩ := exists_of_bind_ok ran
      have labels : Moves Goes (do
          modify (fun parser => { parser with
            labels := Function.update parser.labels token.text (some parser.codeAddress) })
          skipNewlines) := Moves.bind (modify_goes (fun _ => rfl)) (fun _ => skipNewlines_goes)
      have first := beyond (by rw [identifier]; decide)
      have second := further.trans (nextToken_goes _ _ _ taken further.fit)
      exact (first.trans second).trans (labels _ _ _ ran second.fit)
    · simp only [labelled, decide_false, Bool.false_eq_true, if_false] at ran
      exact again peeked further ran
  · simp only [identifier, if_false, pure_bind, Bool.false_eq_true] at ran
    exact again parser onward.fit.onward ran

/-- A statement takes at least one token. The one function that sets the lexer back
goes on from the token it went back to. -/
theorem parseStatement_gains (emit : Bool) : Moves Gains (parseStatement emit) := by
  intro original _ after ran fit
  unfold parseStatement at ran
  change (nextToken >>= _) original = _ at ran
  obtain ⟨token, parser, read, ran⟩ := exists_of_bind_ok ran
  obtain ⟨onward, beyond⟩ := nextToken_onward fit read
  have named : ∀ {y : Parse Unit}, token.type = .Identifier → Moves Goes y → y parser = .ok () after →
      Beyond original.lexer after.lexer := by
    intro y identifier goes ran
    exact (beyond (by rw [identifier]; decide)).trans (goes _ _ _ ran onward.fit)
  split at ran
  · rename_i data
    exact named data.1 (enterSection_goes _) ran
  split at ran
  · rename_i code
    exact named code.1 (enterSection_goes _) ran
  obtain ⟨current, same, got, ran⟩ := exists_of_bind_ok ran
  cases got
  cases section_ : parser.section_ with
  | None =>
    rw [section_] at ran
    cases ran
  | Data =>
    rw [section_] at ran
    by_cases identifier : token.type = .Identifier
    · exact named identifier (parseDeclaration_goes _ _) ran
    · unfold parseDeclaration at ran
      rw [if_pos identifier] at ran
      cases ran
  | Code =>
    rw [section_] at ran
    exact parseCodeStatement_beyond fit read ran

/-- What the loop of `parseProgram` does in a round, its condition already
tested; whether it comes to the end of the body. -/
def parseRound (emit : Bool) : Parse Bool := do
  skipNewlines
  if (← peekToken).type ≠ .End then
    parseStatement emit
    return true
  else return false

/-- The loop is its round and then the loop again. -/
theorem parseProgramLoop_succ (emit : Bool) (fuel : Nat) :
    parseProgramLoop emit (fuel + 1) = (do
      if (← peekToken).type ≠ .End then
        if ← parseRound emit then parseProgramLoop emit fuel) := by
  unfold parseRound
  conv_lhs => unfold parseProgramLoop
  simp only [bind_assoc]
  refine bind_congr (fun token => ?_)
  split
  · refine bind_congr (fun _ => bind_congr (fun token => ?_))
    split
    · simp only [bind_assoc, pure_bind, if_true]
    · simp only [pure_bind, Bool.false_eq_true, if_false]
  · rfl

/-- What one pass of a parse starts from. -/
inductive PassStarts (source : Text) : Bool → Parser → Prop
  | first : PassStarts source false { lexer := { source := source } }
  | second {first : Parser} (ran : parseProgram false { lexer := { source := source } } = .ok () first) :
    PassStarts source true (Source.secondStart first)

/-- Where a pass over a source goes round its loop: its condition is tested and
holds. -/
inductive AtRound (source : Text) (emit : Bool) : Parser → Prop
  | first {start parser after : Parser} {token : Token} (starts : PassStarts source emit start)
    (skipped : skipNewlines { start with section_ := .None } = .ok () parser)
    (peeked : peekToken parser = .ok token after) (more : token.type ≠ .End) : AtRound source emit after
  | again {parser next after : Parser} {token : Token} (round : AtRound source emit parser)
    (ran : parseRound emit parser = .ok true next) (peeked : peekToken next = .ok token after)
    (more : token.type ≠ .End) : AtRound source emit after

variable {source : Text} {emit : Bool} {parser after : Parser}

/-- A round that only skips newlines takes at least one, and a statement takes
its first token. -/
theorem parseRound_beyond {token : Token} {cursor : Lexer} {again : Bool} (fit : parser.lexer.Fit)
    (here : parser.lexer.cursor.readToken = .ok (token, cursor)) (more : token.type ≠ .End)
    (ran : parseRound emit parser = .ok again after) : Beyond parser.lexer after.lexer := by
  unfold parseRound at ran
  obtain ⟨_, skipped, skips, ran⟩ := exists_of_bind_ok ran
  obtain ⟨found, peeked, peek, ran⟩ := exists_of_bind_ok ran
  have onward := skipNewlines_goes _ _ _ skips fit
  obtain ⟨there, same, cursor', read⟩ := peekToken_onward onward.fit peek
  have further := onward.trans there
  by_cases ended : found.type = .End
  · rw [if_neg (not_not_intro ended)] at ran
    cases ran
    refine ⟨further.fit, further.source, ?_⟩
    rcases further.moved with moved | stayed
    · exact moved
    · rw [← same, stayed, here] at read
      cases read
      exact absurd ended more
  · rw [if_pos ended] at ran
    obtain ⟨_, next, statement, ran⟩ := exists_of_bind_ok ran
    cases ran
    obtain ⟨fit', source', moved⟩ := parseStatement_gains emit _ _ _ statement further.fit
    exact ⟨fit', source'.trans further.source, Nat.lt_of_le_of_lt further.position_le moved⟩

/-- A round goes on, whether or not it comes to the end of its body. -/
theorem parseRound_goes (emit : Bool) : Moves Goes (parseRound emit) := by
  refine skipNewlines_goes.bind (fun _ => peekToken_goes.bind (fun _ => Moves.ite ?_ (Moves.pure _)))
  exact (Gains.goes (parseStatement_gains emit)).bind (fun _ => Moves.pure _)

theorem parseProgramLoop_goes (emit : Bool) (fuel : Nat) : Moves Goes (parseProgramLoop emit fuel) := by
  induction fuel with
  | zero => exact Moves.throw _
  | succ fuel ih =>
    rw [parseProgramLoop_succ]
    refine peekToken_goes.bind (fun _ => Moves.ite ?_ (Moves.pure _))
    exact (parseRound_goes emit).bind (fun _ => Moves.ite ih (Moves.pure _))

theorem parseProgram_goes (emit : Bool) : Moves Goes (parseProgram emit) := by
  unfold parseProgram
  refine Moves.bind (modify_goes (fun _ => rfl)) (fun _ => skipNewlines_goes.bind (fun _ => ?_))
  exact Moves.get (fun _ => parseProgramLoop_goes _ _)

/-- Each pass starts with the lexer at the start of the source: the second through
`reset`. -/
theorem PassStarts.fit (starts : PassStarts source emit parser) : parser.lexer.Fit ∧ parser.lexer.source = source := by
  have fresh : Fit { source := source } := by
    refine ⟨fun peeked => ?_, Nat.zero_le _⟩
    cases peeked
  cases starts with
  | first => exact ⟨fresh, rfl⟩
  | second ran =>
    refine ⟨⟨fun peeked => ?_, Nat.zero_le _⟩, ?_⟩
    · cases peeked
    · exact (parseProgram_goes false _ _ _ ran fresh).source

/-- The lexer is within the source at every round, and a token is still to come. -/
theorem AtRound.fit (round : AtRound source emit parser) :
    parser.lexer.Fit ∧ parser.lexer.source = source ∧
      ∃ token cursor, parser.lexer.cursor.readToken = .ok (token, cursor) ∧ token.type ≠ .End := by
  induction round with
  | first starts skipped peeked more =>
    obtain ⟨fit, same⟩ := starts.fit
    have onward := skipNewlines_goes _ _ _ skipped fit
    obtain ⟨there, cursor, _, read⟩ := peekToken_onward onward.fit peeked
    rw [← cursor] at read
    exact ⟨there.fit, there.source.trans (onward.source.trans same), _, _, read, more⟩
  | again _ ran peeked more ih =>
    obtain ⟨fit, same, _⟩ := ih
    have onward := parseRound_goes _ _ _ _ ran fit
    obtain ⟨there, cursor, _, read⟩ := peekToken_onward onward.fit peeked
    rw [← cursor] at read
    exact ⟨there.fit, there.source.trans (onward.source.trans same), _, _, read, more⟩

/-- No rejection of a pass is for want of rounds. -/
theorem parseProgram_ne_diverged (starts : PassStarts source emit parser) :
    parseProgram emit parser ≠ .error .diverged after := by
  intro ran
  obtain ⟨view, spec, passes⟩ : ∃ view spec, Passes source (readable source) emit
      (1 + (tokensOf source).countP Source.isNewline) view (parseProgram emit parser) spec := by
    cases starts with
    | first => exact ⟨_, _, Source.firstPass_passes source⟩
    | second first =>
      obtain ⟨_, _, _, _, passes⟩ := Source.secondPass_passes first
      exact ⟨_, _, passes⟩
  rw [ran] at passes
  cases passes with
  | fair fails _ =>
    obtain ⟨_, _, _, _, _, _, same⟩ := fails
    cases same
  | foul unlocated _ =>
    rcases unlocated with same | same | ⟨_, same⟩
    · cases same
    · cases same
    · cases same
  | late impossible _ => exact impossible

/-- A parse comes to an end on every source, whatever the parser has been used
for, and no round of either pass is without progress. -/
theorem parse_terminates (source : Text) :
    (∀ parser after : Parser, parser.parse source ≠ .error .diverged after) ∧
      ∀ emit parser again after, AtRound source emit parser → parseRound emit parser = .ok again after →
        parser.lexer.position < after.lexer.position ∧ after.lexer.position ≤ source.length := by
  constructor
  · intro parser after ran
    rw [Assembler.parse_members parser { lexer := { source := [] } }] at ran
    have rejected : assemble source = .error .diverged := by
      unfold assemble
      rw [ran]
    cases firstRan : parseProgram false { lexer := { source := source } } with
    | error e failed =>
      rw [Source.assemble_of_firstPass_error firstRan] at rejected
      cases rejected
      exact parseProgram_ne_diverged .first firstRan
    | ok _ first =>
      obtain ⟨rejects, accepts⟩ := Source.assemble_of_firstPass_ok firstRan
      cases secondRan : parseProgram true (Source.secondStart first) with
      | error e failed =>
        rw [rejects e failed secondRan] at rejected
        cases rejected
        exact parseProgram_ne_diverged (.second firstRan) secondRan
      | ok _ second =>
        obtain ⟨program, accepted⟩ := accepts second secondRan
        rw [accepted] at rejected
        cases rejected
  · intro emit parser again after round ran
    obtain ⟨fit, same, token, cursor, read, more⟩ := round.fit
    obtain ⟨fit', source', moved⟩ := parseRound_beyond fit read more ran
    refine ⟨moved, ?_⟩
    rw [← same, ← source']
    exact fit'.inside

/-- A program of one instruction. -/
def codeHalt : Text := "CODE:\nhalt".toList

/-- Two rounds of the loop, from the start of a pass; whether there is a token
before each of them and each comes to the end of the body. -/
def twoRounds : Parse Bool := do
  skipNewlines
  let first ← peekToken
  let again ← parseRound false
  let second ← peekToken
  let ended ← parseRound false
  return decide (first.type ≠ .End) && again && (decide (second.type ≠ .End) && ended)

/-- The second round over this source looks for a label, goes back to `halt` and
reads it as an instruction. -/
theorem parse_terminates_codeHalt :
    ∃ parser after, AtRound codeHalt false parser ∧ parseRound false parser = .ok true after ∧
      parser.lexer.position < after.lexer.position ∧ after.lexer.position ≤ codeHalt.length := by
  have checked : (match twoRounds { lexer := { source := codeHalt } } with
    | .ok all _ => all
    | .error _ _ => false) = true := by decide +kernel
  cases ran : twoRounds { lexer := { source := codeHalt } } with
  | error e after =>
    rw [ran] at checked
    cases checked
  | ok all after =>
    rw [ran] at checked
    obtain rfl : all = true := checked
    obtain ⟨_, start, skipped, ran⟩ := exists_of_bind_ok ran
    obtain ⟨token, first, peeked, ran⟩ := exists_of_bind_ok ran
    obtain ⟨again, next, round, ran⟩ := exists_of_bind_ok ran
    obtain ⟨token', second, peeked', ran⟩ := exists_of_bind_ok ran
    obtain ⟨ended, last, round', ran⟩ := exists_of_bind_ok ran
    have holds : (decide (token.type ≠ .End) && again && (decide (token'.type ≠ .End) && ended)) = true :=
      (EStateM.Result.ok.inj ran).1
    simp only [Bool.and_eq_true, decide_eq_true_eq] at holds
    obtain ⟨⟨more, rfl⟩, more', rfl⟩ := holds
    have atSecond : AtRound codeHalt false second := .again (.first .first skipped peeked more) round peeked' more'
    exact ⟨second, last, atSecond, round', (parse_terminates codeHalt).2 false second true last atSecond round'⟩

end Parser

end VirtualMachine
