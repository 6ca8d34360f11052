import VirtualMachine.Assembler.TokenStream

namespace VirtualMachine

namespace Lexer

/-- A token apart from the line it stands on. -/
abbrev Spelling := TokenType × Text

def isIdentifier : Text → Bool
  | [] => false
  | ch :: rest => (ch.isAlpha || ch == '_') && rest.all isWordChar && !isRegisterName (ch :: rest)

def isNumber : Text → Bool
  | '-' :: digits => !digits.isEmpty && digits.all Char.isDigit
  | digits => !digits.isEmpty && digits.all Char.isDigit

def spelledAs : TokenType → Text → Bool
  | .Identifier, text => isIdentifier text
  | .Register, text => isRegisterName text
  | .Number, text => isNumber text
  | .LBracket, text => text == ['[']
  | .RBracket, text => text == [']']
  | .Comma, text => text == [',']
  | .Colon, text => text == [':']
  | .Newline, _ => false
  | .End, _ => false

/-- What may follow a name, a register or a number. -/
def Apart : Text → Prop
  | [] => True
  | ch :: _ => isWordChar ch = false

/-- A line without its comment. -/
inductive Spells : List Spelling → Text → Prop
  | nil {blanks : Text} (blank : blanks.all isBlank = true) : Spells [] blanks
  | cons {blanks text rest : Text} {type : TokenType} {later : List Spelling} (blank : blanks.all isBlank = true)
      (spelled : spelledAs type text = true) (apart : text.all isWordChar = true ∨ type = .Number → Apart rest)
      (line : Spells later rest) : Spells ((type, text) :: later) (blanks ++ text ++ rest)

variable {lexer : Lexer} {blanks text rest : Text}

theorem skipWhitespaceLength_blanks (blank : blanks.all isBlank = true) :
    skipWhitespaceLength false (blanks ++ text) = blanks.length + skipWhitespaceLength false text := by
  induction blanks with
  | nil => exact (Nat.zero_add _).symm
  | cons ch blanks ih =>
    obtain ⟨first, others⟩ := Bool.and_eq_true_iff.mp blank
    have skipped : skipWhitespaceLength false (ch :: blanks ++ text) =
      skipWhitespaceLength false (blanks ++ text) + 1 :=
      if_pos first
    rw [skipped, ih others, List.length_cons]
    omega

/-- Blanks before a token make no difference. -/
theorem readToken_blanks (blank : blanks.all isBlank = true)
    (here : lexer.source.drop lexer.position = blanks ++ text) :
    lexer.readToken = ({ lexer with position := lexer.position + blanks.length } : Lexer).readToken := by
  have beyond : lexer.source.drop (lexer.position + blanks.length) = text := by
    rw [← List.drop_drop, here, List.drop_left]
  have same : lexer.skipWhitespace =
    ({ lexer with position := lexer.position + blanks.length } : Lexer).skipWhitespace := by
    simp only [skipWhitespace, here, beyond, skipWhitespaceLength_blanks blank, Nat.add_assoc]
  unfold readToken
  rw [same]

/-- A character that starts a token. -/
theorem skipWhitespace_visible {ch : Char} (here : lexer.source.drop lexer.position = ch :: rest)
    (visible : isBlank ch = false) (noComment : ch ≠ '#') : lexer.skipWhitespace = lexer := by
  have none : skipWhitespaceLength false (ch :: rest) = 0 := by
    rw [skipWhitespaceLength, if_neg (by rw [visible]; decide), if_neg noComment]
  simp only [skipWhitespace, here, none, Nat.add_zero]

theorem takeWhile_apart {p : Char → Bool} (each : text.all p = true) (stops : ∀ ch ∈ rest.head?, p ch = false) :
    (text ++ rest).takeWhile p = text := by
  rw [List.takeWhile_append_of_pos (fun ch member => List.all_eq_true.mp each ch member)]
  cases rest with
  | nil => rw [List.takeWhile_nil, List.append_nil]
  | cons ch rest =>
    have not : ¬ p ch = true := by
      rw [stops ch rfl]
      decide
    rw [List.takeWhile_cons_of_neg not, List.append_nil]

/-- No character that starts a word or a number has a rule of its own. -/
theorem plain_of_start {ch : Char} (start : (ch.isAlpha || ch == '_') = true ∨ (ch.isDigit || ch == '-') = true) :
    isBlank ch = false ∧ ch ≠ '#' ∧ ch ≠ '\n' ∧ ch ≠ '[' ∧ ch ≠ ']' ∧ ch ≠ ',' ∧ ch ≠ ':' := by
  refine ⟨?_, ?_, ?_, ?_, ?_, ?_, ?_⟩
  · by_contra blank
    rw [Bool.not_eq_false, isBlank, Bool.or_eq_true, Bool.or_eq_true, beq_iff_eq, beq_iff_eq, beq_iff_eq] at blank
    rcases blank with (rfl | rfl) | rfl <;> exact absurd start (by decide)
  all_goals
    rintro rfl
    exact absurd start (by decide)

theorem readToken_word {ch : Char} (here : lexer.source.drop lexer.position = ch :: rest)
    (start : (ch.isAlpha || ch == '_') = true) : lexer.readToken = .ok lexer.makeIdentifierOrRegister := by
  obtain ⟨visible, noComment, newline, left, right, comma, colon⟩ := plain_of_start (.inl start)
  unfold readToken
  rw [skipWhitespace_visible here visible noComment]
  simp only [here, newline, left, right, comma, colon, start, if_false, if_true]

theorem not_alpha_of_digit {ch : Char} (digit : ch.isDigit = true) : ch.isAlpha = false := by
  have digits : ch.val ≤ 57 := of_decide_eq_true (Bool.and_eq_true_iff.mp digit).2
  have below : ch.val.toNat ≤ 57 := UInt32.le_iff_toNat_le.mp digits
  have beyond : ∀ first : UInt32, 57 < first.toNat → ¬ first ≤ ch.val := by
    intro first high least
    have ordered : first.toNat ≤ ch.val.toNat := UInt32.le_iff_toNat_le.mp least
    omega
  have upper : ch.isUpper = false := decide_eq_false (fun within => beyond 65 (by decide) within.1)
  have lower : ch.isLower = false :=
    Bool.and_eq_false_iff.mpr (.inl (decide_eq_false (beyond 97 (by decide))))
  exact Bool.or_eq_false_iff.mpr ⟨upper, lower⟩

theorem not_word_of_number {ch : Char} (start : (ch.isDigit || ch == '-') = true) :
    ¬ (ch.isAlpha || ch == '_') = true := by
  rcases Bool.or_eq_true_iff.mp start with digit | minus
  · rw [not_alpha_of_digit digit, Bool.false_or, beq_iff_eq]
    rintro rfl
    exact absurd digit (by decide)
  · rw [eq_of_beq minus]
    decide

theorem readToken_number {ch : Char} (here : lexer.source.drop lexer.position = ch :: rest)
    (start : (ch.isDigit || ch == '-') = true) : lexer.readToken = .ok lexer.makeNumber := by
  obtain ⟨visible, noComment, newline, left, right, comma, colon⟩ := plain_of_start (.inr start)
  have noWord : ¬ (ch.isAlpha || ch == '_') = true := not_word_of_number start
  unfold readToken
  rw [skipWhitespace_visible here visible noComment]
  simp only [here, newline, left, right, comma, colon, if_false]
  rw [if_neg noWord, if_pos start]

theorem makeIdentifierOrRegister_eq (here : lexer.source.drop lexer.position = text ++ rest)
    (word : text.all isWordChar = true) (apart : Apart rest) :
    lexer.makeIdentifierOrRegister =
      if isRegisterName text then lexer.take .Register text else lexer.take .Identifier text := by
  have stops : ∀ ch ∈ rest.head?, isWordChar ch = false := by
    intro ch first
    cases rest with
    | nil => cases first
    | cons other rest =>
      cases first
      exact apart
  unfold makeIdentifierOrRegister
  rw [here, takeWhile_apart word stops]

theorem isWordChar_of_digit {ch : Char} (digit : ch.isDigit = true) : isWordChar ch = true := by
  simp [isWordChar, Char.isAlphanum, digit]

theorem numberText_eq (number : isNumber text = true) (apart : Apart rest) : numberText (text ++ rest) = text := by
  have stops : ∀ ch ∈ rest.head?, ch.isDigit = false := by
    intro ch first
    cases rest with
    | nil => cases first
    | cons other rest =>
      cases first
      by_contra digit
      rw [Bool.not_eq_false] at digit
      have apart' : isWordChar ch = false := apart
      rw [isWordChar_of_digit digit] at apart'
      cases apart'
  unfold isNumber at number
  split at number
  · rename_i digits
    obtain ⟨_, each⟩ := Bool.and_eq_true_iff.mp number
    change '-' :: (digits ++ rest).takeWhile Char.isDigit = '-' :: digits
    rw [takeWhile_apart each stops]
  · rename_i unsigned
    obtain ⟨nonempty, each⟩ := Bool.and_eq_true_iff.mp number
    unfold numberText
    split
    · rename_i minus
      cases text with
      | nil => cases nonempty
      | cons ch digits =>
        cases minus
        exact absurd rfl (unsigned digits)
    · exact takeWhile_apart each stops

theorem isIdentifier_start (identifier : isIdentifier text = true) :
    ∃ ch later, text = ch :: later ∧ (ch.isAlpha || ch == '_') = true ∧ text.all isWordChar = true ∧
      isRegisterName text = false := by
  cases text with
  | nil => cases identifier
  | cons ch later =>
    obtain ⟨both, noRegister⟩ := Bool.and_eq_true_iff.mp identifier
    obtain ⟨start, words⟩ := Bool.and_eq_true_iff.mp both
    refine ⟨ch, later, rfl, start, ?_, (Bool.not_eq_true' _).mp noRegister⟩
    rw [List.all_cons, words, Bool.and_true, isWordChar, Char.isAlphanum]
    rcases Bool.or_eq_true_iff.mp start with letter | underscore
    · simp [letter]
    · simp [underscore]

theorem isRegisterName_start (register : isRegisterName text = true) :
    ∃ later, text = 'r' :: later ∧ text.all isWordChar = true := by
  unfold isRegisterName at register
  split at register
  · rename_i digits
    obtain ⟨_, each⟩ := Bool.and_eq_true_iff.mp register
    refine ⟨digits, rfl, List.all_eq_true.mpr (fun ch member => ?_)⟩
    rcases List.mem_cons.mp member with rfl | later
    · decide
    · exact isWordChar_of_digit (List.all_eq_true.mp each ch later)
  · cases register

theorem isNumber_start (number : isNumber text = true) :
    ∃ ch later, text = ch :: later ∧ (ch.isDigit || ch == '-') = true := by
  unfold isNumber at number
  split at number
  · exact ⟨'-', _, rfl, by decide⟩
  · obtain ⟨nonempty, each⟩ := Bool.and_eq_true_iff.mp number
    cases text with
    | nil => cases nonempty
    | cons ch later =>
      have digit := List.all_eq_true.mp each ch List.mem_cons_self
      exact ⟨ch, later, rfl, by rw [digit, Bool.true_or]⟩

/-- The lexer reads a token where it is spelled. -/
theorem readToken_spelled {type : TokenType} (here : lexer.source.drop lexer.position = text ++ rest)
    (spelled : spelledAs type text = true) (apart : text.all isWordChar = true ∨ type = .Number → Apart rest) :
    lexer.readToken = .ok (lexer.take type text) := by
  cases type with
  | End => cases spelled
  | Newline => cases spelled
  | Identifier =>
    obtain ⟨ch, later, same, start, words, noRegister⟩ := isIdentifier_start spelled
    rw [readToken_word (by rw [here, same]; rfl) start, makeIdentifierOrRegister_eq here words (apart (.inl words)),
      noRegister]
    rfl
  | Register =>
    obtain ⟨later, same, words⟩ := isRegisterName_start spelled
    have register : isRegisterName text = true := spelled
    rw [readToken_word (by rw [here, same]; rfl) (by decide),
      makeIdentifierOrRegister_eq here words (apart (.inl words)), register]
    rfl
  | Number =>
    obtain ⟨ch, later, same, start⟩ := isNumber_start spelled
    rw [readToken_number (by rw [here, same]; rfl) start, makeNumber, here, numberText_eq spelled (apart (.inr rfl))]
  | LBracket =>
    obtain rfl : text = ['['] := eq_of_beq spelled
    have here' : lexer.source.drop lexer.position = '[' :: rest := here
    unfold readToken
    rw [skipWhitespace_visible here' (by decide) (by decide)]
    simp only [here']
    rfl
  | RBracket =>
    obtain rfl : text = [']'] := eq_of_beq spelled
    have here' : lexer.source.drop lexer.position = ']' :: rest := here
    unfold readToken
    rw [skipWhitespace_visible here' (by decide) (by decide)]
    simp only [here']
    rfl
  | Comma =>
    obtain rfl : text = [','] := eq_of_beq spelled
    have here' : lexer.source.drop lexer.position = ',' :: rest := here
    unfold readToken
    rw [skipWhitespace_visible here' (by decide) (by decide)]
    simp only [here']
    rfl
  | Colon =>
    obtain rfl : text = [':'] := eq_of_beq spelled
    have here' : lexer.source.drop lexer.position = ':' :: rest := here
    unfold readToken
    rw [skipWhitespace_visible here' (by decide) (by decide)]
    simp only [here']
    rfl

def Spelling.at (line : Nat) (spelling : Spelling) : Token := { type := spelling.1, text := spelling.2, line := line }

variable {source : Text} {position line : Nat} {clean : Bool} {spellings : List Spelling} {tokens : List Token}

theorem Streams.of_blanks (blank : blanks.all isBlank = true) (here : source.drop position = blanks ++ text)
    (streams : Streams clean { source := source, position := position + blanks.length, line := line } tokens) :
    Streams clean { source := source, position := position, line := line } tokens := by
  have same : ({ source := source, position := position, line := line } : Lexer).readToken =
      ({ source := source, position := position + blanks.length, line := line } : Lexer).readToken :=
    readToken_blanks blank here
  cases tokens with
  | nil =>
    unfold Streams cursor at streams ⊢
    rw [same]
    exact streams
  | cons token rest =>
    unfold Streams cursor at streams ⊢
    rw [same]
    exact streams

/-- The tokens of a line come before those of what follows it. -/
theorem Streams.of_spells {body after : Text} (spells : Spells spellings body)
    (here : source.drop position = body ++ after) (ends : Apart after)
    (streams : Streams clean { source := source, position := position + body.length, line := line } tokens) :
    Streams clean { source := source, position := position, line := line }
      (spellings.map (Spelling.at line) ++ tokens) := by
  induction spells generalizing position with
  | nil blank => exact streams.of_blanks blank here
  | @cons blanks text rest type later blank spelled apart spells ih =>
    have atBlanks : source.drop position = blanks ++ (text ++ (rest ++ after)) := by
      rw [here, List.append_assoc, List.append_assoc]
    have atText : source.drop (position + blanks.length) = text ++ (rest ++ after) := by
      rw [← List.drop_drop, atBlanks, List.drop_left]
    have atRest : source.drop (position + blanks.length + text.length) = rest ++ after := by
      rw [← List.drop_drop, atText, List.drop_left]
    have length : position + (blanks ++ text ++ rest).length =
      position + blanks.length + text.length + rest.length := by
      rw [List.length_append, List.length_append, Nat.add_assoc, Nat.add_assoc, Nat.add_assoc]
    rw [length] at streams
    have apart' : text.all isWordChar = true ∨ type = .Number → Apart (rest ++ after) := by
      intro wordlike
      cases rest with
      | nil => exact ends
      | cons ch rest => exact apart wordlike
    have notEnd : type ≠ .End := by
      rintro rfl
      cases spelled
    refine Streams.of_blanks blank atBlanks ?_
    exact ⟨notEnd, _, readToken_spelled atText spelled apart', ih atRest streams⟩

/-- A comment as docs/ISA.md writes it, up to the end of its line. -/
def commentText : Option Text → Text
  | none => []
  | some comment => ';' :: comment

/-- Lines that are spelled one below the other, the last one without a newline
of its own. -/
inductive SpellsLines : List (List Spelling × Option Text) → Text → Prop
  | last {spellings : List Spelling} {comment : Option Text} {body : Text} (spells : Spells spellings body)
      (short : ∀ text ∈ comment, '\n' ∉ text) : SpellsLines [(spellings, comment)] (body ++ commentText comment)
  | more {spellings : List Spelling} {comment : Option Text} {lines : List (List Spelling × Option Text)}
      {body rest : Text}
      (spells : Spells spellings body) (short : ∀ text ∈ comment, '\n' ∉ text) (later : SpellsLines lines rest) :
      SpellsLines ((spellings, comment) :: lines) (body ++ commentText comment ++ '\n' :: rest)

/-- The tokens of lines, the first of them with this number. -/
def lineTokens : Nat → List (List Spelling) → List Token
  | _, [] => []
  | line, [spellings] => spellings.map (Spelling.at line)
  | line, spellings :: lines =>
    spellings.map (Spelling.at line) ++ { type := .Newline, text := ['\\', 'n'], line := line } ::
      lineTokens (line + 1) lines

theorem Streams.of_newline (here : source.drop position = '\n' :: rest)
    (streams : Streams clean { source := source, position := position + 1, line := line + 1 } tokens) :
    Streams clean { source := source, position := position, line := line }
      ({ type := .Newline, text := ['\\', 'n'], line := line } :: tokens) := by
  refine ⟨?_, _, ?_, streams⟩
  · intro impossible
    cases impossible
  have here' : (cursor { source := source, position := position, line := line }).source.drop
      (cursor { source := source, position := position, line := line }).position = '\n' :: rest := here
  unfold readToken
  rw [skipWhitespace_visible here' (by decide) (by decide)]
  simp only [here']
  rfl

theorem Streams.of_comment (here : source.drop position = ';' :: rest) :
    Streams false { source := source, position := position, line := line } [] := by
  have here' : (cursor { source := source, position := position, line := line }).source.drop
      (cursor { source := source, position := position, line := line }).position = ';' :: rest := here
  have refused : (cursor { source := source, position := position, line := line }).readToken =
      .error (.assemblerError line ("unexpected character: " ++ String.singleton ';')) := by
    unfold readToken
    rw [skipWhitespace_visible here' (by decide) (by decide)]
    simp only [here']
    rfl
  unfold Streams
  rw [refused]

theorem Streams.of_end (here : source.drop position = []) :
    Streams true { source := source, position := position, line := line } [] := by
  have ended : (cursor { source := source, position := position, line := line }).readToken =
      .ok ({ type := .End, text := [], line := line }, { source := source, position := position, line := line }) := by
    have skipped : skipWhitespace (cursor { source := source, position := position, line := line }) =
        { source := source, position := position, line := line } := by
      simp only [skipWhitespace, cursor, here]
      rfl
    unfold readToken
    rw [skipped]
    simp only [here]
  unfold Streams
  rw [ended]
  exact ⟨rfl, rfl⟩

variable {lines : List (List Spelling × Option Text)}

theorem drop_line {body rest : Text} (here : source.drop position = body ++ '\n' :: rest) :
    source.drop (position + body.length) = '\n' :: rest ∧ source.drop (position + body.length + 1) = rest := by
  have atNewline : source.drop (position + body.length) = '\n' :: rest := by
    rw [← List.drop_drop, here, List.drop_left]
  refine ⟨atNewline, ?_⟩
  rw [← List.drop_drop, atNewline]
  rfl

/-- Lines without comments are read as their tokens. -/
theorem Streams.of_lines (spells : SpellsLines lines text) (bare : ∀ entry ∈ lines, entry.2 = none)
    (here : source.drop position = text) :
    Streams true { source := source, position := position, line := line } (lineTokens line (lines.map Prod.fst)) := by
  induction spells generalizing position line with
  | @last spellings comment body spells short =>
    obtain rfl : comment = none := bare _ List.mem_cons_self
    have beyond : source.drop (position + body.length) = [] := by
      rw [← List.drop_drop, here]
      exact List.drop_left
    have ended : Streams true { source := source, position := position + body.length, line := line } [] :=
      Streams.of_end beyond
    have streams := Streams.of_spells spells here trivial ended
    rw [List.append_nil] at streams
    exact streams
  | @more spellings comment lines body rest spells short later ih =>
    obtain rfl : comment = none := bare _ List.mem_cons_self
    have here' : source.drop position = body ++ '\n' :: rest := by
      rw [here, commentText, List.append_nil]
    obtain ⟨atNewline, below⟩ := drop_line here'
    have streams : Streams true { source := source, position := position + body.length + 1, line := line + 1 }
        (lineTokens (line + 1) (lines.map Prod.fst)) :=
      ih (fun entry member => bare entry (List.mem_cons_of_mem _ member)) below
    have joined := Streams.of_spells spells here' (by decide : isWordChar '\n' = false)
      (Streams.of_newline atNewline streams)
    cases later <;> exact joined

/-- The first comment ends what can be read. -/
theorem Streams.of_commented (spells : SpellsLines lines text) (commented : ∃ entry ∈ lines, entry.2 ≠ none)
    (here : source.drop position = text) :
    ∃ tokens, Streams false { source := source, position := position, line := line } tokens := by
  induction spells generalizing position line with
  | @last spellings comment body spells short =>
    obtain ⟨entry, member, present⟩ := commented
    obtain rfl := List.mem_singleton.mp member
    cases comment with
    | none => exact absurd rfl present
    | some comment =>
      have atComment : source.drop (position + body.length) = ';' :: comment := by
        rw [← List.drop_drop, here]
        exact List.drop_left
      exact ⟨_, Streams.of_spells spells here (by decide : isWordChar ';' = false) (Streams.of_comment atComment)⟩
  | @more spellings comment lines body rest spells short later ih =>
    cases comment with
    | some comment =>
      have here' : source.drop position = body ++ ';' :: (comment ++ '\n' :: rest) := by
        rw [here, List.append_assoc]
        rfl
      have atComment : source.drop (position + body.length) = ';' :: (comment ++ '\n' :: rest) := by
        rw [← List.drop_drop, here', List.drop_left]
      exact ⟨_, Streams.of_spells spells here' (by decide : isWordChar ';' = false) (Streams.of_comment atComment)⟩
    | none =>
      have here' : source.drop position = body ++ '\n' :: rest := by
        rw [here, commentText, List.append_nil]
      obtain ⟨atNewline, below⟩ := drop_line here'
      have further : ∃ entry ∈ lines, entry.2 ≠ none := by
        obtain ⟨entry, member, present⟩ := commented
        rcases List.mem_cons.mp member with rfl | member
        · exact absurd rfl present
        · exact ⟨entry, member, present⟩
      obtain ⟨tokens, streams⟩ := ih further below
      exact ⟨_, Streams.of_spells spells here' (by decide : isWordChar '\n' = false)
        (Streams.of_newline atNewline streams)⟩

/-- What the lexer makes of lines that are spelled one below the other. -/
theorem tokenize_of_spells (spells : SpellsLines lines text) :
    tokenize text =
      if ∀ entry ∈ lines, entry.2 = none then some (lineTokens 1 (lines.map Prod.fst)) else none := by
  by_cases bare : ∀ entry ∈ lines, entry.2 = none
  · rw [if_pos bare]
    have streams : Streams true { source := text } (lineTokens 1 (lines.map Prod.fst)) :=
      Streams.of_lines spells bare rfl
    obtain ⟨clean, tokens, start, read⟩ := exists_at text
    obtain ⟨whole, same⟩ := start.streams.unique streams
    rw [read, whole, same]
    rfl
  · rw [if_neg bare]
    have commented : ∃ entry ∈ lines, entry.2 ≠ none := by
      push Not at bare
      exact bare
    obtain ⟨tokens, streams⟩ : ∃ tokens, Streams false { source := text } tokens :=
      Streams.of_commented spells commented rfl
    obtain ⟨clean, tokens', start, read⟩ := exists_at text
    obtain ⟨broken, _⟩ := start.streams.unique streams
    rw [read, broken]
    rfl

end Lexer

end VirtualMachine
