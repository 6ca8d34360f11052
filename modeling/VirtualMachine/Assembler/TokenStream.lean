import VirtualMachine.Assembler.Lexer

namespace VirtualMachine

namespace Lexer

/-- The lexer without what a peek has kept. -/
def cursor (lexer : Lexer) : Lexer :=
  { source := lexer.source, position := lexer.position, line := lexer.line }

/-- What a successful `readToken` does. Only a newline moves the line, and
every token but the end of the source takes a character. -/
structure Read (lexer : Lexer) (token : Token) (after : Lexer) : Prop where
  moved : after = { lexer with position := after.position, line := after.line }
  line : token.type ≠ .Newline → after.line = lexer.line
  progress : token.type ≠ .End → lexer.position < after.position ∧ after.position ≤ lexer.source.length

variable {lexer after : Lexer} {token : Token}

/-- A number takes at least the character it starts with and no more than there are.
The sign alone is a number to the lexer. -/
theorem numberText_bounds {ch : Char} (rest : Text) (start : (ch.isDigit || ch == '-') = true) :
    0 < (numberText (ch :: rest)).length ∧ (numberText (ch :: rest)).length ≤ rest.length + 1 := by
  have shorter : (rest.takeWhile Char.isDigit).length ≤ rest.length := (List.takeWhile_prefix _).length_le
  unfold numberText
  split
  · rename_i split
    cases split
    simp only [List.length_cons]
    omega
  · rename_i notMinus
    have digit : ch.isDigit = true := by
      rcases Bool.or_eq_true_iff.mp start with digit | minus
      · exact digit
      · exact absurd (congrArg (· :: rest) (eq_of_beq minus)) (notMinus rest)
    rw [List.takeWhile_cons_of_pos digit]
    simp only [List.length_cons]
    omega

/-- A word takes at least the character it starts with. -/
theorem word_bounds {ch : Char} (rest : Text) (start : (ch.isAlpha || ch == '_') = true) :
    0 < ((ch :: rest).takeWhile isWordChar).length ∧ ((ch :: rest).takeWhile isWordChar).length ≤ rest.length + 1 := by
  have word : isWordChar ch = true := by
    unfold isWordChar Char.isAlphanum
    rcases Bool.or_eq_true_iff.mp start with letter | underscore
    · simp [letter]
    · simp [underscore]
  have shorter : (rest.takeWhile isWordChar).length ≤ rest.length := (List.takeWhile_prefix _).length_le
  rw [List.takeWhile_cons_of_pos word]
  simp only [List.length_cons]
  omega

/-- Taking a text that is there moves the position behind it and leaves the line. -/
theorem take_read {type : TokenType} {text : Text} (nonempty : 0 < text.length)
    (fits : lexer.position + text.length ≤ lexer.source.length) :
    Read lexer (lexer.take type text).1 (lexer.take type text).2 :=
  ⟨rfl, fun _ => rfl, fun _ => ⟨Nat.lt_add_of_pos_right nonempty, fits⟩⟩

/-- Blanks and comments in front only move the position further. -/
theorem Read.of_skipWhitespace (read : Read lexer.skipWhitespace token after) : Read lexer token after := by
  obtain ⟨moved, line, progress⟩ := read
  refine ⟨moved, line, fun notEnd => ?_⟩
  obtain ⟨further, inside⟩ := progress notEnd
  have skipped : lexer.skipWhitespace.position =
      lexer.position + skipWhitespaceLength false (lexer.source.drop lexer.position) := rfl
  exact ⟨by omega, inside⟩

theorem makeIdentifierOrRegister_read {ch : Char} {rest : Text}
    (left : lexer.source.drop lexer.position = ch :: rest) (start : (ch.isAlpha || ch == '_') = true) :
    Read lexer lexer.makeIdentifierOrRegister.1 lexer.makeIdentifierOrRegister.2 := by
  have size := congrArg List.length left
  obtain ⟨nonempty, shorter⟩ := word_bounds rest start
  simp only [List.length_drop, List.length_cons] at size
  unfold makeIdentifierOrRegister
  rw [left]
  dsimp only
  split
  · exact take_read nonempty (by omega)
  · exact take_read nonempty (by omega)

theorem makeNumber_read {ch : Char} {rest : Text}
    (left : lexer.source.drop lexer.position = ch :: rest) (start : (ch.isDigit || ch == '-') = true) :
    Read lexer lexer.makeNumber.1 lexer.makeNumber.2 := by
  have size := congrArg List.length left
  obtain ⟨nonempty, shorter⟩ := numberText_bounds rest start
  simp only [List.length_drop, List.length_cons] at size
  unfold makeNumber
  rw [left]
  exact take_read nonempty (by omega)

/-- Whatever token is read, it has moved the lexer forward. Every bound on the
rounds of a parser loop comes from this. -/
theorem readToken_read (ran : lexer.readToken = .ok (token, after)) : Read lexer token after := by
  apply Read.of_skipWhitespace
  unfold readToken at ran
  generalize lexer.skipWhitespace = lexer at ran ⊢
  dsimp only at ran
  cases left : lexer.source.drop lexer.position with
  | nil =>
    simp only [left] at ran
    cases ran
    exact ⟨rfl, fun _ => rfl, fun notEnd => absurd rfl notEnd⟩
  | cons ch rest =>
    have size := congrArg List.length left
    simp only [List.length_drop, List.length_cons] at size
    have single : ∀ type symbol, Read lexer (lexer.take type [symbol]).1 (lexer.take type [symbol]).2 :=
      fun _ _ => take_read Nat.one_pos (by simp only [List.length_singleton]; omega)
    simp only [left] at ran
    split at ran
    · cases ran
      exact ⟨rfl, fun visible => absurd rfl visible, fun _ => ⟨Nat.lt_succ_self _, by dsimp only; omega⟩⟩
    split at ran
    · cases ran
      exact single _ _
    split at ran
    · cases ran
      exact single _ _
    split at ran
    · cases ran
      exact single _ _
    split at ran
    · cases ran
      exact single _ _
    split at ran
    · rename_i letter
      have read := makeIdentifierOrRegister_read left letter
      rw [Except.ok.inj ran] at read
      exact read
    split at ran
    · rename_i digit
      have read := makeNumber_read left digit
      rw [Except.ok.inj ran] at read
      exact read
    · cases ran

/-- What a peek has kept plays no part in `readToken`. -/
theorem readToken_cursor (lexer : Lexer) :
    lexer.readToken =
      lexer.cursor.readToken.map
        (fun read => (read.1, { lexer with position := read.2.position, line := read.2.line })) := by
  have same : lexer.cursor.skipWhitespace = lexer.skipWhitespace.cursor := rfl
  have frame : ∀ position line, { lexer with position := position, line := line } =
      { lexer.skipWhitespace with position := position, line := line } := fun _ _ => rfl
  simp only [readToken, same, frame]
  generalize lexer.skipWhitespace = lexer
  have left : lexer.cursor.source.drop lexer.cursor.position = lexer.source.drop lexer.position := rfl
  rw [left]
  cases lexer.source.drop lexer.position with
  | nil => rfl
  | cons ch rest =>
    dsimp only
    split
    · rfl
    split
    · rfl
    split
    · rfl
    split
    · rfl
    split
    · rfl
    split
    · unfold makeIdentifierOrRegister
      rw [left]
      dsimp only
      split <;> rfl
    split
    · rfl
    · rfl

/-- The tokens that are still to be read, up to the end of the source if
`clean`, and up to a lexical error otherwise. -/
def Streams (clean : Bool) : Lexer → List Token → Prop
  | lexer, [] =>
    match lexer.cursor.readToken with
    | .ok (token, _) => token.type = .End ∧ clean = true
    | .error _ => clean = false
  | lexer, token :: rest =>
    token.type ≠ .End ∧ ∃ after, lexer.cursor.readToken = .ok (token, after) ∧ Streams clean after rest

/-- What a peek has kept is the next token. -/
def Sound (lexer : Lexer) : Prop :=
  lexer.hasPeek = true →
    lexer.cursor.readToken =
      .ok (lexer.peekToken, { lexer.cursor with position := lexer.peekPosition, line := lexer.peekLine })

/-- `tokens` are what the parser has still to see. -/
structure At (clean : Bool) (lexer : Lexer) (tokens : List Token) : Prop where
  sound : lexer.Sound
  streams : Streams clean lexer tokens

/-- The tokens still to be read depend on the position and the line alone. -/
theorem Streams.of_cursor_eq {clean : Bool} {other : Lexer} {tokens : List Token}
    (streams : Streams clean lexer tokens) (same : other.cursor = lexer.cursor) : Streams clean other tokens := by
  cases tokens <;> (unfold Streams at streams ⊢; rw [same]; exact streams)

/-- `next` reads the token at the position, whether it was peeked before or not. -/
theorem next_eq (sound : lexer.Sound) :
    lexer.next =
      lexer.cursor.readToken.map (fun read =>
        (read.1, { lexer with hasPeek := false, position := read.2.position, line := read.2.line })) := by
  unfold next
  cases peeked : lexer.hasPeek with
  | true =>
    rw [if_pos rfl, sound peeked]
    rfl
  | false =>
    have unchanged : ∀ position line, { lexer with hasPeek := false, position := position, line := line } =
        { lexer with position := position, line := line } := by
      intro position line
      rw [← peeked]
    rw [if_neg (by decide), readToken_cursor lexer]
    simp only [unchanged]

/-- `peek` reads the same token and keeps it. -/
theorem peek_eq (sound : lexer.Sound) :
    lexer.peek =
      lexer.cursor.readToken.map (fun read =>
        (read.1, { lexer with
          peekToken := read.1, peekPosition := read.2.position, peekLine := read.2.line, hasPeek := true })) := by
  unfold peek
  cases peeked : lexer.hasPeek with
  | true =>
    rw [if_pos rfl, sound peeked]
    simp only [Except.map, ← peeked]
  | false =>
    rw [if_neg (by decide), readToken_cursor lexer]
    cases lexer.cursor.readToken <;> rfl

/-- The two equations, on a token that can be read. -/
theorem next_ok (sound : lexer.Sound) (ran : lexer.next = .ok (token, after)) :
    ∃ cursor, lexer.cursor.readToken = .ok (token, cursor) ∧
      after = { lexer with hasPeek := false, position := cursor.position, line := cursor.line } := by
  rw [next_eq sound] at ran
  cases read : lexer.cursor.readToken with
  | error e =>
    rw [read] at ran
    cases ran
  | ok found =>
    rw [read] at ran
    cases ran
    exact ⟨found.2, rfl, rfl⟩

theorem peek_ok (sound : lexer.Sound) (ran : lexer.peek = .ok (token, after)) :
    ∃ cursor, lexer.cursor.readToken = .ok (token, cursor) ∧ after.Sound ∧ after.cursor = lexer.cursor := by
  rw [peek_eq sound] at ran
  cases read : lexer.cursor.readToken with
  | error e =>
    rw [read] at ran
    cases ran
  | ok found =>
    rw [read] at ran
    cases ran
    refine ⟨found.2, rfl, fun _ => ?_, rfl⟩
    have moved := (readToken_read read).moved
    change lexer.cursor.readToken = _
    rw [read]
    exact congrArg (fun cursor => Except.ok (found.1, cursor)) moved

variable {clean : Bool} {tokens rest : List Token}

/-- Reading a token leaves the rest of the tokens, on the same line unless it
is a newline. -/
theorem At.next_cons (here : At clean lexer (token :: rest)) :
    ∃ after, lexer.next = .ok (token, after) ∧ At clean after rest ∧ after.source = lexer.source ∧
      (token.type ≠ .Newline → after.line = lexer.line) := by
  obtain ⟨sound, _, cursor, read, streams⟩ := here
  refine ⟨{ lexer with hasPeek := false, position := cursor.position, line := cursor.line }, ?_, ⟨?_, ?_⟩, rfl,
    (readToken_read read).line⟩
  · rw [next_eq sound, read]
    rfl
  · intro peeked
    cases peeked
  · apply streams.of_cursor_eq
    rw [(readToken_read read).moved]
    rfl

/-- Conversely, a token that is read and is not the end was the first of the tokens. -/
theorem At.next_ok (here : At clean lexer tokens) (ran : lexer.next = .ok (token, after))
    (notEnd : token.type ≠ .End) :
    ∃ rest, tokens = token :: rest ∧ At clean after rest ∧ after.source = lexer.source := by
  cases tokens with
  | nil =>
    have ended := here.streams
    unfold Streams at ended
    rw [next_eq here.sound] at ran
    cases read : lexer.cursor.readToken with
    | error e =>
      rw [read] at ran
      cases ran
    | ok found =>
      rw [read] at ran ended
      cases ran
      exact absurd ended.1 notEnd
  | cons first rest =>
    obtain ⟨next, ran', there, source, _⟩ := here.next_cons
    rw [ran'] at ran
    cases ran
    exact ⟨rest, rfl, there, source⟩

/-- Behind the last token the end of the source is read, again and again. -/
theorem At.next_nil (here : At clean lexer []) (ran : lexer.next = .ok (token, after)) : token.type = .End := by
  by_contra notEnd
  obtain ⟨_, impossible, _⟩ := here.next_ok ran notEnd
  cases impossible

/-- Peeking changes neither the tokens nor the position and the line. -/
structure Peeked (clean : Bool) (lexer : Lexer) (tokens : List Token) (token : Token) (after : Lexer) : Prop where
  here : At clean after tokens
  cursor : after.cursor = lexer.cursor
  token : tokens.head? = some token ∨ tokens = [] ∧ clean = true ∧ token.type = .End

/-- A peek keeps the token and nothing else changes. -/
theorem At.peek_of_readToken (here : At clean lexer tokens) {cursor : Lexer}
    (read : lexer.cursor.readToken = .ok (token, cursor)) :
    lexer.peek =
        .ok (token, { lexer with
          peekToken := token, peekPosition := cursor.position, peekLine := cursor.line, hasPeek := true }) ∧
      At clean { lexer with
        peekToken := token, peekPosition := cursor.position, peekLine := cursor.line, hasPeek := true } tokens := by
  constructor
  · rw [peek_eq here.sound, read]
    rfl
  · refine ⟨fun _ => ?_, here.streams.of_cursor_eq rfl⟩
    rw [(readToken_read read).moved] at read
    exact read

/-- Whenever a peek succeeds, it is such a peek. -/
theorem At.peek_ok (here : At clean lexer tokens) (ran : lexer.peek = .ok (token, after)) :
    Peeked clean lexer tokens token after := by
  cases read : lexer.cursor.readToken with
  | error e =>
    rw [peek_eq here.sound, read] at ran
    cases ran
  | ok found =>
    obtain ⟨first, cursor⟩ := found
    obtain ⟨peeked, there⟩ := here.peek_of_readToken read
    rw [peeked] at ran
    cases ran
    refine ⟨there, rfl, ?_⟩
    have streams := here.streams
    cases tokens with
    | nil =>
      unfold Streams at streams
      rw [read] at streams
      exact .inr ⟨rfl, streams.2, streams.1⟩
    | cons _ rest =>
      obtain ⟨_, _, read', _⟩ := streams
      rw [read] at read'
      cases read'
      exact .inl rfl

/-- With a token left, the peek shows it. -/
theorem At.peek_cons (here : At clean lexer (token :: rest)) :
    ∃ after, lexer.peek = .ok (token, after) ∧ Peeked clean lexer (token :: rest) token after := by
  obtain ⟨_, cursor, read, _⟩ := here.streams
  obtain ⟨peeked, there⟩ := here.peek_of_readToken read
  exact ⟨_, peeked, there, rfl, .inl rfl⟩

/-- At the end of a source that can be read, the peek shows the end. -/
theorem At.peek_nil (here : At true lexer []) :
    ∃ token after, lexer.peek = .ok (token, after) ∧ Peeked true lexer [] token after := by
  have streams := here.streams
  unfold Streams at streams
  cases read : lexer.cursor.readToken with
  | error e =>
    rw [read] at streams
    cases streams
  | ok found =>
    rw [read] at streams
    obtain ⟨peeked, there⟩ := here.peek_of_readToken read
    exact ⟨_, _, peeked, there, rfl, .inr ⟨rfl, rfl, streams.1⟩⟩

/-- A peek fails only if the source cannot be read to its end. -/
theorem At.peek_error {e : Exception} (here : At clean lexer tokens) (ran : lexer.peek = .error e) : clean = false := by
  cases tokens with
  | nil =>
    cases clean with
    | false => rfl
    | true =>
      obtain ⟨_, _, found, _⟩ := here.peek_nil
      rw [found] at ran
      cases ran
  | cons token rest =>
    obtain ⟨_, found, _⟩ := here.peek_cons
    rw [found] at ran
    cases ran

/-- A lexer set back to an earlier position of the same line. -/
theorem At.restore {original : Lexer} (start : At clean original tokens) (source : after.source = original.source)
    (line : after.line = original.line) : At clean (after.restore original.mark) tokens := by
  refine ⟨?_, start.streams.of_cursor_eq ?_⟩
  · intro peeked
    cases peeked
  · simp only [cursor, Lexer.restore, mark, source, line]

/-- Every token takes a character of the source. -/
theorem exists_streams (lexer : Lexer) :
    ∃ clean tokens, Streams clean lexer tokens ∧ tokens.length ≤ lexer.source.length - lexer.position := by
  induction left : lexer.source.length - lexer.position using Nat.strong_induction_on generalizing lexer with
  | _ left ih =>
    cases read : lexer.cursor.readToken with
    | error e => exact ⟨false, [], by unfold Streams; rw [read], Nat.zero_le _⟩
    | ok found =>
      obtain ⟨token, after⟩ := found
      by_cases ended : token.type = .End
      · exact ⟨true, [], by unfold Streams; rw [read]; exact ⟨ended, rfl⟩, Nat.zero_le _⟩
      · have moved := (readToken_read read).moved
        have source : after.source = lexer.source := by rw [moved]; rfl
        obtain ⟨further, inside⟩ := (readToken_read read).progress ended
        simp only [cursor] at further inside
        obtain ⟨clean, tokens, streams, short⟩ :=
          ih (after.source.length - after.position) (by rw [source]; omega) after rfl
        refine ⟨clean, token :: tokens, ⟨ended, after, read, streams⟩, ?_⟩
        rw [source] at short
        simp only [List.length_cons]
        omega

/-- The tokens of a position are determined by it. -/
theorem Streams.unique {clean clean' : Bool} {tokens' : List Token} (left : Streams clean lexer tokens)
    (right : Streams clean' lexer tokens') : clean = clean' ∧ tokens = tokens' := by
  induction tokens generalizing lexer tokens' with
  | nil =>
    cases tokens' with
    | nil =>
      unfold Streams at left right
      split at left
      · rename_i read
        rw [read] at right
        exact ⟨left.2.trans right.2.symm, rfl⟩
      · rename_i read
        rw [read] at right
        exact ⟨left.trans right.symm, rfl⟩
    | cons token rest =>
      obtain ⟨notEnd, _, read, _⟩ := right
      unfold Streams at left
      rw [read] at left
      exact absurd left.1 notEnd
  | cons token rest ih =>
    obtain ⟨notEnd, after, read, streams⟩ := left
    cases tokens' with
    | nil =>
      unfold Streams at right
      rw [read] at right
      exact absurd right.1 notEnd
    | cons token' rest' =>
      obtain ⟨_, _, read', streams'⟩ := right
      rw [read] at read'
      cases read'
      obtain ⟨sameEnd, same⟩ := ih streams streams'
      exact ⟨sameEnd, congrArg _ same⟩

/-- There are no more tokens than characters. -/
theorem At.length_le (here : At clean lexer tokens) : tokens.length ≤ lexer.source.length := by
  obtain ⟨_, _, streams, short⟩ := exists_streams lexer
  rw [(here.streams.unique streams).2]
  exact short.trans (Nat.sub_le _ _)

/-- The tokens of a source, if all of it can be read; each takes at least one
character, so its length bounds the rounds. -/
def readTokens : Nat → Lexer → Option (List Token)
  | 0, _ => none
  | fuel + 1, lexer =>
    match lexer.readToken with
    | .error _ => none
    | .ok (token, after) => if token.type = .End then some [] else (readTokens fuel after).map (token :: ·)

def tokenize (source : Text) : Option (List Token) := readTokens (source.length + 1) { source := source }

/-- The tokens up to where the lexer stops, and whether that is the end of the
source. -/
def scan : Nat → Lexer → List Token × Bool
  | 0, _ => ([], false)
  | fuel + 1, lexer =>
    match lexer.readToken with
    | .error _ => ([], false)
    | .ok (token, after) =>
      if token.type = .End then ([], true) else (token :: (scan fuel after).1, (scan fuel after).2)

def tokensOf (source : Text) : List Token := (scan (source.length + 1) { source := source }).1

/-- The lexer can read the source to its end. -/
def readable (source : Text) : Bool := (scan (source.length + 1) { source := source }).2

/-- `readTokens` is `scan` with a failure in the place of what was read before it. -/
theorem readTokens_eq_scan (fuel : Nat) (lexer : Lexer) :
    readTokens fuel lexer = if (scan fuel lexer).2 then some (scan fuel lexer).1 else none := by
  induction fuel generalizing lexer with
  | zero => rfl
  | succ fuel ih =>
    unfold readTokens scan
    cases lexer.readToken with
    | error e => rfl
    | ok found =>
      dsimp only
      by_cases ended : found.1.type = .End
      · simp only [ended, if_true]
      · simp only [ended, if_false, ih]
        cases (scan fuel found.2).2 <;> rfl

theorem tokenize_eq (source : Text) : tokenize source = if readable source then some (tokensOf source) else none :=
  readTokens_eq_scan _ _

theorem cursor_of_readToken {cursor : Lexer} (plain : lexer.cursor = lexer)
    (read : lexer.readToken = .ok (token, cursor)) :
    cursor.cursor = cursor := by
  rw [(readToken_read read).moved, ← plain]
  rfl

/-- Enough rounds find exactly the tokens that the parser sees. -/
theorem scan_of_streams {fuel : Nat} (plain : lexer.cursor = lexer) (streams : Streams clean lexer tokens)
    (enough : tokens.length < fuel) : scan fuel lexer = (tokens, clean) := by
  induction fuel generalizing lexer tokens with
  | zero => exact absurd enough (Nat.not_lt_zero _)
  | succ fuel ih =>
    unfold scan
    cases tokens with
    | nil =>
      unfold Streams at streams
      rw [plain] at streams
      split at streams
      · rename_i read
        rw [read, ← streams.2]
        exact if_pos streams.1
      · rename_i read
        rw [read, streams]
    | cons token rest =>
      obtain ⟨notEnd, after, read, later⟩ := streams
      rw [plain] at read
      rw [read]
      dsimp only
      rw [if_neg notEnd, ih (cursor_of_readToken plain read) later (Nat.lt_of_succ_lt_succ enough)]

/-- At its start, a source has its tokens still to be read. -/
theorem at_tokensOf (source : Text) : At (readable source) { source := source } (tokensOf source) := by
  obtain ⟨clean, tokens, streams, short⟩ := exists_streams { source := source }
  have scanned : scan (source.length + 1) { source := source } = (tokens, clean) :=
    scan_of_streams rfl streams (Nat.lt_succ_of_le short)
  refine ⟨?_, ?_⟩
  · intro peeked
    cases peeked
  · unfold readable tokensOf
    rw [scanned]
    exact streams

/-- Every source has its tokens, up to a lexical error if it has one. -/
theorem exists_at (source : Text) :
    ∃ clean tokens, At clean { source := source } tokens ∧ tokenize source = if clean then some tokens else none :=
  ⟨readable source, tokensOf source, at_tokensOf source, tokenize_eq source⟩

/-- `reset` goes back to the first token, as the second pass needs it. -/
theorem At.reset {source : Text} (start : At clean { source := source } tokens) (same : lexer.source = source) :
    At clean lexer.reset tokens := by
  refine ⟨?_, start.streams.of_cursor_eq ?_⟩
  · intro peeked
    cases peeked
  · simp only [cursor, Lexer.reset, same]

end Lexer

end VirtualMachine
