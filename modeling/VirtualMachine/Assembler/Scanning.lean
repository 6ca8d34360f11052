import VirtualMachine.Assembler.Spelling
import VirtualMachine.Assembler.Lines

namespace VirtualMachine

/-- A token apart from its line. -/
def Token.spelling (token : Token) : Lexer.Spelling := (token.type, token.text)

namespace Lexer

def wordSpelling (text : Text) : Spelling :=
  (if isRegisterName (text.takeWhile isWordChar) then .Register else .Identifier, text.takeWhile isWordChar)

/-- What is read from a text without blanks in front, and how many characters
it takes; or the character that is rejected. -/
def scanVisible : Text → Except Char (Spelling × Nat)
  | [] => .ok ((.End, []), 0)
  | ch :: rest =>
    if ch = '\n' then .ok ((.Newline, ['\\', 'n']), 1)
    else if ch = '[' then .ok ((.LBracket, ['[']), 1)
    else if ch = ']' then .ok ((.RBracket, [']']), 1)
    else if ch = ',' then .ok ((.Comma, [',']), 1)
    else if ch = ':' then .ok ((.Colon, [':']), 1)
    else if ch.isAlpha || ch == '_' then .ok (wordSpelling (ch :: rest), (wordSpelling (ch :: rest)).2.length)
    else if ch.isDigit || ch == '-' then .ok ((.Number, numberText (ch :: rest)), (numberText (ch :: rest)).length)
    else .error ch

/-- What is read from a text, and how many characters are then gone. -/
def scanToken (text : Text) : Except Char (Spelling × Nat) :=
  (scanVisible (text.drop (skipWhitespaceLength false text))).map (fun scanned =>
    (scanned.1, skipWhitespaceLength false text + scanned.2))

/-- The lexer with what is read in front of it. -/
def reads (lexer : Lexer) : Except Char (Spelling × Nat) → Except Exception (Token × Lexer)
  | .error ch => .error (.assemblerError lexer.line ("unexpected character: " ++ String.singleton ch))
  | .ok (spelling, length) =>
    .ok (spelling.at lexer.line,
      { lexer with
        position := lexer.position + length
        line := if spelling.1 = .Newline then lexer.line + 1 else lexer.line })

variable {lexer after : Lexer} {token : Token} {text rest : Text} {spelling : Spelling} {length : Nat} {ch : Char}

/-- The same for a word. -/
theorem makeIdentifierOrRegister_scans (lexer : Lexer) :
    (.ok lexer.makeIdentifierOrRegister : Except Exception (Token × Lexer)) =
      lexer.reads (.ok (wordSpelling (lexer.source.drop lexer.position),
        (wordSpelling (lexer.source.drop lexer.position)).2.length)) := by
  unfold makeIdentifierOrRegister wordSpelling
  dsimp only
  split <;> rfl

/-- A lexer reads what the text in front of it says, at its own position and line.
From here on the text is enough. -/
theorem readToken_scans (lexer : Lexer) :
    lexer.readToken = lexer.reads (scanToken (lexer.source.drop lexer.position)) := by
  have skipped : lexer.reads (scanToken (lexer.source.drop lexer.position)) =
      lexer.skipWhitespace.reads (scanVisible (lexer.skipWhitespace.source.drop lexer.skipWhitespace.position)) := by
    have here : lexer.skipWhitespace.source.drop lexer.skipWhitespace.position =
        (lexer.source.drop lexer.position).drop (skipWhitespaceLength false (lexer.source.drop lexer.position)) :=
      List.drop_drop.symm
    rw [here]
    unfold scanToken
    cases scanVisible ((lexer.source.drop lexer.position).drop _) with
    | error ch => rfl
    | ok scanned =>
      change Except.ok _ = Except.ok _
      simp only [skipWhitespace, Nat.add_assoc]
  rw [skipped]
  unfold readToken
  generalize lexer.skipWhitespace = lexer
  dsimp only
  cases left : lexer.source.drop lexer.position with
  | nil => rfl
  | cons ch rest =>
    unfold scanVisible
    dsimp only
    split
    · rfl
    split
    · rfl
    split
    · rfl
    split
    · rfl
    split
    · rfl
    split
    · rw [makeIdentifierOrRegister_scans, left]
    split
    · unfold makeNumber
      rw [left]
      rfl
    · rfl

/-- A comment is skipped to the end of its line, -/
theorem skipWhitespaceLength_comment (ch : Char) (rest : Text) :
    skipWhitespaceLength true (ch :: rest) = if ch = '\n' then 0 else skipWhitespaceLength true rest + 1 := rfl

/-- and blanks and the sign of a comment one by one. -/
theorem skipWhitespaceLength_cons (ch : Char) (rest : Text) :
    skipWhitespaceLength false (ch :: rest) =
      if isBlank ch then skipWhitespaceLength false rest + 1
      else if ch = '#' then skipWhitespaceLength true rest + 1 else 0 := rfl

/-- Blanks and comments that are all skipped leave the scan in a comment if one
of them is still open. -/
theorem skipWhitespaceLength_append {inComment : Bool} (whole : skipWhitespaceLength inComment text = text.length)
    (rest : Text) :
    skipWhitespaceLength inComment (text ++ rest) =
      text.length + skipWhitespaceLength (inComment || text.contains '#') rest := by
  induction text generalizing inComment with
  | nil => rw [List.contains_nil, Bool.or_false, List.nil_append, List.length_nil, Nat.zero_add]
  | cons ch text ih =>
    rw [List.cons_append, List.length_cons, List.contains_cons]
    rw [List.length_cons] at whole
    cases inComment with
    | true =>
      rw [skipWhitespaceLength_comment] at whole ⊢
      by_cases newline : ch = '\n'
      · rw [if_pos newline] at whole
        cases whole
      · rw [if_neg newline] at whole ⊢
        rw [ih (Nat.succ.inj whole), Bool.true_or, Bool.true_or]
        omega
    | false =>
      rw [skipWhitespaceLength_cons] at whole ⊢
      by_cases blank : isBlank ch = true
      · have other : ('#' == ch) = false := by
          refine beq_false_of_ne (fun hash => ?_)
          rw [← hash] at blank
          cases blank
        rw [if_pos blank] at whole ⊢
        rw [ih (Nat.succ.inj whole), other, Bool.false_or, Bool.false_or]
        omega
      · rw [if_neg blank] at whole ⊢
        by_cases hash : ch = '#'
        · rw [if_pos hash] at whole ⊢
          rw [ih (Nat.succ.inj whole), hash, beq_self_eq_true, Bool.true_or, Bool.or_true]
          omega
        · rw [if_neg hash] at whole
          cases whole

/-- Skipping that stops in the first of two texts stops there, whatever the second
is. -/
theorem skipWhitespaceLength_append_of_lt {inComment : Bool} (short : skipWhitespaceLength inComment text < text.length)
    (rest : Text) : skipWhitespaceLength inComment (text ++ rest) = skipWhitespaceLength inComment text := by
  induction text generalizing inComment with
  | nil => exact absurd short (Nat.not_lt_zero _)
  | cons ch text ih =>
    rw [List.cons_append]
    cases inComment with
    | true =>
      rw [skipWhitespaceLength_comment] at short ⊢
      rw [skipWhitespaceLength_comment]
      by_cases newline : ch = '\n'
      · rw [if_pos newline, if_pos newline]
      · rw [if_neg newline] at short
        rw [if_neg newline, if_neg newline, ih (Nat.lt_of_succ_lt_succ short)]
    | false =>
      rw [skipWhitespaceLength_cons] at short ⊢
      rw [skipWhitespaceLength_cons]
      by_cases blank : isBlank ch = true
      · rw [if_pos blank] at short
        rw [if_pos blank, if_pos blank, ih (Nat.lt_of_succ_lt_succ short)]
      · rw [if_neg blank] at short
        rw [if_neg blank, if_neg blank]
        by_cases hash : ch = '#'
        · rw [if_pos hash] at short
          rw [if_pos hash, if_pos hash, ih (Nat.lt_of_succ_lt_succ short)]
        · rw [if_neg hash, if_neg hash]

/-- A token that starts in a text is found there whatever follows it. -/
theorem skipWhitespaceLength_replace (inside : skipWhitespaceLength false (text ++ rest) < text.length) (rest' : Text) :
    skipWhitespaceLength false (text ++ rest') = skipWhitespaceLength false (text ++ rest) := by
  rcases Nat.lt_or_eq_of_le (skipWhitespaceLength_le false text) with short | whole
  · rw [skipWhitespaceLength_append_of_lt short, skipWhitespaceLength_append_of_lt short]
  · rw [skipWhitespaceLength_append whole] at inside
    omega

/-- What may stand in the place of what follows a token: nothing that would
make it longer. -/
def Replaces (rest rest' : Text) : Prop := Apart rest' ∨ rest'.head? = rest.head?

variable {rest' : Text}

/-- A word or a number ends where its characters end, so it can be followed by
anything that does not go on with it. -/
theorem takeWhile_replace {p : Char → Bool} (words : ∀ ch, p ch = true → isWordChar ch = true)
    (whole : (text ++ rest).takeWhile p = text) (replaces : Replaces rest rest') :
    (text ++ rest').takeWhile p = text := by
  have each : text.all p = true := by
    rw [← whole]
    exact List.all_takeWhile
  have stops : ∀ ch ∈ rest.head?, p ch = false := by
    intro ch first
    by_contra goesOn
    rw [Bool.not_eq_false] at goesOn
    cases rest with
    | nil => cases first
    | cons other rest =>
      cases first
      rw [List.takeWhile_append_of_pos (List.all_eq_true.mp each), List.takeWhile_cons_of_pos goesOn] at whole
      have size := congrArg List.length whole
      rw [List.length_append, List.length_cons] at size
      omega
  refine takeWhile_apart each (fun ch first => ?_)
  rcases replaces with apart | same
  · cases rest' with
    | nil => cases first
    | cons other rest' =>
      cases first
      by_contra goesOn
      rw [Bool.not_eq_false] at goesOn
      have apart : isWordChar ch = false := apart
      rw [words ch goesOn] at apart
      cases apart
  · exact stops ch (same ▸ first)

theorem numberText_replace (whole : numberText (ch :: text ++ rest) = ch :: text) (replaces : Replaces rest rest') :
    numberText (ch :: text ++ rest') = ch :: text := by
  by_cases minus : ch = '-'
  · subst minus
    have digits : '-' :: (text ++ rest).takeWhile Char.isDigit = '-' :: text := whole
    change '-' :: (text ++ rest').takeWhile Char.isDigit = '-' :: text
    rw [takeWhile_replace (fun _ => isWordChar_of_digit) (List.cons.inj digits).2 replaces]
  · have plain : ∀ later, numberText (ch :: later) = (ch :: later).takeWhile Char.isDigit := by
      intro later
      unfold numberText
      split
      · rename_i same
        exact absurd (List.cons.inj same).1 minus
      · rfl
    have digits : (ch :: text ++ rest).takeWhile Char.isDigit = ch :: text := (plain _).symm.trans whole
    exact (plain _).trans (takeWhile_replace (fun _ => isWordChar_of_digit) digits replaces)

theorem wordSpelling_replace (whole : (wordSpelling (text ++ rest)).2 = text) (replaces : Replaces rest rest') :
    wordSpelling (text ++ rest') = wordSpelling (text ++ rest) := by
  have word : (text ++ rest).takeWhile isWordChar = text := whole
  unfold wordSpelling
  rw [word, takeWhile_replace (fun _ is => is) word replaces]

/-- What is read has the length of the text before the rest. -/
theorem eq_of_isPrefix {read : Text} (start : read <+: text ++ rest) (size : read.length = text.length) :
    read = text := by
  rw [List.prefix_iff_eq_take.mp start, size, List.take_left]

/-- One token, without the blanks in front. -/
theorem scanVisible_replace (scanned : scanVisible (ch :: text ++ rest) = .ok (spelling, (ch :: text).length))
    (replaces : Replaces rest rest') : scanVisible (ch :: text ++ rest') = .ok (spelling, (ch :: text).length) := by
  rw [List.cons_append] at scanned ⊢
  unfold scanVisible at scanned ⊢
  dsimp only at scanned ⊢
  split at scanned
  · rename_i newline
    rw [if_pos newline]
    exact scanned
  rename_i newline
  rw [if_neg newline]
  split at scanned
  · rename_i left
    rw [if_pos left]
    exact scanned
  rename_i left
  rw [if_neg left]
  split at scanned
  · rename_i right
    rw [if_pos right]
    exact scanned
  rename_i right
  rw [if_neg right]
  split at scanned
  · rename_i comma
    rw [if_pos comma]
    exact scanned
  rename_i comma
  rw [if_neg comma]
  split at scanned
  · rename_i colon
    rw [if_pos colon]
    exact scanned
  rename_i colon
  rw [if_neg colon]
  split at scanned
  · rename_i letter
    rw [if_pos letter]
    have size : (wordSpelling (ch :: (text ++ rest))).2.length = (ch :: text).length :=
      congrArg Prod.snd (Except.ok.inj scanned)
    have whole : (wordSpelling (ch :: text ++ rest)).2 = ch :: text := eq_of_isPrefix (List.takeWhile_prefix _) size
    have same := wordSpelling_replace whole replaces
    rw [← List.cons_append, same]
    exact scanned
  rename_i letter
  rw [if_neg letter]
  split at scanned
  · rename_i digit
    rw [if_pos digit]
    have size : (numberText (ch :: (text ++ rest))).length = (ch :: text).length :=
      congrArg Prod.snd (Except.ok.inj scanned)
    have whole : numberText (ch :: text ++ rest) = ch :: text := eq_of_isPrefix (numberText_isPrefix _) size
    have same := numberText_replace whole replaces
    rw [List.cons_append] at whole same
    rw [same]
    rw [whole] at scanned
    exact scanned
  · cases scanned

/-- Every token but the end has a character. -/
theorem scanVisible_pos (scanned : scanVisible text = .ok (spelling, length)) (notEnd : spelling.1 ≠ .End) :
    0 < length := by
  cases text with
  | nil =>
    cases scanned
    exact absurd rfl notEnd
  | cons ch rest =>
    unfold scanVisible at scanned
    dsimp only at scanned
    repeat' split at scanned
    all_goals cases scanned
    all_goals first
      | exact Nat.one_pos
      | exact (word_bounds rest ‹_›).1
      | exact (numberText_bounds rest ‹_›).1

/-- A token is read behind the blanks in front of it. -/
theorem scanToken_eq_ok (scanned : scanToken text = .ok (spelling, length)) :
    ∃ taken, scanVisible (text.drop (skipWhitespaceLength false text)) = .ok (spelling, taken) ∧
      length = skipWhitespaceLength false text + taken := by
  unfold scanToken at scanned
  cases read : scanVisible (text.drop (skipWhitespaceLength false text)) with
  | error ch =>
    rw [read] at scanned
    cases scanned
  | ok found =>
    rw [read] at scanned
    cases scanned
    exact ⟨found.2, rfl, rfl⟩

theorem scanToken_of_visible {taken : Nat} (skipped : skipWhitespaceLength false text = length)
    (scanned : scanVisible (text.drop length) = .ok (spelling, taken)) :
    scanToken text = .ok (spelling, length + taken) := by
  unfold scanToken
  rw [skipped, scanned]
  rfl

/-- A new lexer over a text reads what is scanned. -/
theorem readToken_of_scanToken (scanned : scanToken text = .ok (spelling, length)) :
    ({ source := text } : Lexer).readToken =
      .ok (spelling.at 1, { source := text, position := length, line := if spelling.1 = .Newline then 2 else 1 }) := by
  rw [readToken_scans, List.drop_zero, scanned]
  change Except.ok _ = Except.ok _
  simp only [Nat.zero_add]

/-- It takes characters of the text, and at least one. -/
theorem scanToken_bounds (scanned : scanToken text = .ok (spelling, length)) (notEnd : spelling.1 ≠ .End) :
    0 < length ∧ length ≤ text.length := by
  have progress := (readToken_read (readToken_of_scanToken scanned)).progress notEnd
  exact progress

/-- A token is read from its own characters; what follows matters only as far
as it could make the token longer. -/
theorem scanToken_replace (scanned : scanToken (text ++ rest) = .ok (spelling, text.length))
    (notEnd : spelling.1 ≠ .End)
    (replaces : Replaces rest rest') : scanToken (text ++ rest') = .ok (spelling, text.length) := by
  obtain ⟨taken, visible, size⟩ := scanToken_eq_ok scanned
  have positive := scanVisible_pos visible notEnd
  have inside : skipWhitespaceLength false (text ++ rest) < text.length := by omega
  have same := skipWhitespaceLength_replace inside rest'
  generalize skipWhitespaceLength false (text ++ rest) = skipped at *
  rw [List.drop_append_of_le_length (Nat.le_of_lt inside)] at visible
  have left : (text.drop skipped).length = taken := by
    rw [List.length_drop]
    omega
  cases token : text.drop skipped with
  | nil =>
    rw [token] at left
    exact absurd left (Nat.ne_of_lt positive)
  | cons ch later =>
    rw [token] at visible left
    rw [← left] at visible
    have visible' := scanVisible_replace visible replaces
    rw [← token, ← List.drop_append_of_le_length (Nat.le_of_lt inside)] at visible'
    rw [scanToken_of_visible same visible', token, left, ← size]

theorem takeWhile_within {p : Char → Bool} (words : ∀ ch, p ch = true → isWordChar ch = true) (apart : Apart rest) :
    ((text ++ rest).takeWhile p).length ≤ text.length := by
  have stops : rest.takeWhile p = [] := by
    cases rest with
    | nil => rfl
    | cons ch rest =>
      refine List.takeWhile_cons_of_neg (fun goesOn => ?_)
      have apart : isWordChar ch = false := apart
      rw [words ch goesOn] at apart
      cases apart
  have shorter : (text.takeWhile p).length ≤ text.length := (List.takeWhile_prefix _).length_le
  rw [List.takeWhile_append, stops, List.append_nil]
  split
  · exact Nat.le_refl _
  · exact shorter

theorem numberText_within (apart : Apart rest) : (numberText (ch :: text ++ rest)).length ≤ text.length + 1 := by
  have digits : ∀ text : Text, ((text ++ rest).takeWhile Char.isDigit).length ≤ text.length :=
    fun _ => takeWhile_within (fun _ => isWordChar_of_digit) apart
  unfold numberText
  split
  · rename_i same
    cases same
    rw [List.length_cons]
    exact Nat.succ_le_succ (digits text)
  · exact digits (ch :: text)

/-- A token does not run into what stands apart from it. -/
theorem scanVisible_within (scanned : scanVisible (ch :: text ++ rest) = .ok (spelling, length)) (apart : Apart rest) :
    length ≤ text.length + 1 := by
  have word : ((ch :: text ++ rest).takeWhile isWordChar).length ≤ text.length + 1 :=
    takeWhile_within (fun _ is => is) apart
  rw [List.cons_append] at scanned
  unfold scanVisible at scanned
  dsimp only at scanned
  repeat' split at scanned
  all_goals cases scanned
  all_goals first
    | exact Nat.succ_le_succ (Nat.zero_le _)
    | exact word
    | exact numberText_within apart

/-- A rejected character is the one that is looked at, so nothing behind it matters. -/
theorem scanVisible_error {rejected : Char} (scanned : scanVisible (ch :: rest) = .error rejected) (rest' : Text) :
    scanVisible (ch :: rest') = .error rejected := by
  unfold scanVisible at scanned ⊢
  dsimp only at scanned ⊢
  repeat' split at scanned
  all_goals cases scanned
  simp only [*, if_false, Bool.false_eq_true]

/-- A character that is rejected is rejected whatever follows it. -/
theorem scanToken_error {rejected : Char} (inside : skipWhitespaceLength false (text ++ rest) < text.length)
    (scanned : scanToken (text ++ rest) = .error rejected) (rest' : Text) :
    scanToken (text ++ rest') = .error rejected := by
  have same := skipWhitespaceLength_replace inside rest'
  unfold scanToken at scanned ⊢
  rw [same]
  generalize skipWhitespaceLength false (text ++ rest) = skipped at *
  rw [List.drop_append_of_le_length (Nat.le_of_lt inside), List.drop_eq_getElem_cons inside,
    List.cons_append] at scanned
  rw [List.drop_append_of_le_length (Nat.le_of_lt inside), List.drop_eq_getElem_cons inside, List.cons_append]
  cases read : scanVisible (text[skipped] :: (text.drop (skipped + 1) ++ rest)) with
  | error ch =>
    rw [read] at scanned
    cases scanned
    rw [scanVisible_error read]
    rfl
  | ok found =>
    rw [read] at scanned
    cases scanned

/-- Some tokens are read off a text, and this much of it is left. -/
inductive ReadsTo : Text → List Spelling → Text → Prop
  | here (text : Text) : ReadsTo text [] text
  | token {text rest left : Text} {spelling : Spelling} {later : List Spelling} (notEnd : spelling.1 ≠ .End)
    (scanned : scanToken (text ++ rest) = .ok (spelling, text.length)) (others : ReadsTo rest later left) :
    ReadsTo (text ++ rest) (spelling :: later) left

/-- No token is left: the text ends here if `clean`, and otherwise it goes on
with what is rejected. -/
def Ends (clean : Bool) (text : Text) : Prop :=
  match scanToken text with
  | .ok (spelling, _) => spelling.1 = .End ∧ clean = true
  | .error _ => clean = false

/-- The tokens of a text, as far as it can be read. -/
def Reads (clean : Bool) (text : Text) (spellings : List Spelling) : Prop :=
  ∃ left, ReadsTo text spellings left ∧ Ends clean left

variable {clean clean' : Bool} {left : Text} {spellings later : List Spelling} {tokens : List Token}

/-- One token more in front. -/
theorem ReadsTo.cons (notEnd : spelling.1 ≠ .End) (scanned : scanToken text = .ok (spelling, length))
    (others : ReadsTo (text.drop length) later left) : ReadsTo text (spelling :: later) left := by
  have size : (text.take length).length = length :=
    List.length_take_of_le (scanToken_bounds scanned notEnd).2
  rw [← List.take_append_drop length text] at scanned ⊢
  refine .token notEnd ?_ others
  rw [scanned, size]

/-- Tokens are read one stretch after the other. -/
theorem ReadsTo.trans {middle : Text} (first : ReadsTo text spellings middle) (second : ReadsTo middle later left) :
    ReadsTo text (spellings ++ later) left := by
  induction first with
  | here text => exact second
  | token notEnd scanned _ ih => exact .token notEnd scanned (ih second)

/-- What is left is the end of the text. -/
theorem ReadsTo.suffix (reads : ReadsTo text spellings left) : ∃ front, text = front ++ left := by
  induction reads with
  | here => exact ⟨[], rfl⟩
  | @token text _ _ _ _ _ _ _ ih =>
    obtain ⟨front, rfl⟩ := ih
    exact ⟨text ++ front, (List.append_assoc _ _ _).symm⟩

theorem Replaces.append (replaces : Replaces rest rest') (front : Text) :
    Replaces (front ++ rest) (front ++ rest') := by
  cases front with
  | nil => exact replaces
  | cons ch front => exact .inr rfl

/-- What is left of a text can be replaced, where that makes its last token no
longer. -/
theorem ReadsTo.replace (reads : ReadsTo (text ++ rest) spellings rest) (replaces : Replaces rest rest') :
    ReadsTo (text ++ rest') spellings rest' := by
  generalize whole : text ++ rest = source at reads
  induction reads generalizing text with
  | here =>
    obtain rfl : text = [] := List.append_left_eq_self.mp whole
    exact .here _
  | @token front behind left spelling later notEnd scanned others ih =>
    obtain ⟨back, rfl⟩ := others.suffix
    obtain rfl : text = front ++ back := by
      rw [← List.append_assoc] at whole
      exact List.append_cancel_right whole
    rw [List.append_assoc]
    exact .token notEnd (scanToken_replace scanned notEnd (replaces.append back)) (ih replaces rfl)

/-- The tokens of a text up to its end are determined, however they are read. -/
theorem ReadsTo.unique {left' : Text} {spellings' : List Spelling} (reads : ReadsTo text spellings left)
    (ends : Ends clean left) (reads' : ReadsTo text spellings' left') (ends' : Ends clean' left') :
    clean = clean' ∧ spellings = spellings' := by
  have stuck : ∀ {clean text rest length spelling}, Ends clean (text ++ rest) →
      scanToken (text ++ rest) = .ok (spelling, length) → spelling.1 ≠ .End → False := by
    intro clean text rest length spelling ends scanned notEnd
    unfold Ends at ends
    rw [scanned] at ends
    exact notEnd ends.1
  induction reads generalizing spellings' with
  | here =>
    cases reads' with
    | here =>
      unfold Ends at ends ends'
      split at ends
      · rename_i scanned
        rw [scanned] at ends'
        exact ⟨ends.2.trans ends'.2.symm, rfl⟩
      · rename_i scanned
        rw [scanned] at ends'
        exact ⟨ends.trans ends'.symm, rfl⟩
    | token notEnd scanned _ => exact (stuck ends scanned notEnd).elim
  | @token text rest _ spelling _ notEnd scanned _ ih =>
    generalize whole : text ++ rest = source at reads'
    cases reads' with
    | here =>
      rw [← whole] at ends'
      exact (stuck ends' scanned notEnd).elim
    | @token text' rest' _ spelling' _ _ scanned' others =>
      rw [← whole, scanned] at scanned'
      obtain ⟨rfl, size⟩ := Prod.mk.inj (Except.ok.inj scanned')
      obtain ⟨rfl, rfl⟩ := List.append_inj whole size
      obtain ⟨sameEnd, same⟩ := ih ends others
      exact ⟨sameEnd, congrArg _ same⟩

theorem Reads.unique {spellings' : List Spelling} (reads : Reads clean text spellings)
    (reads' : Reads clean' text spellings') :
    clean = clean' ∧ spellings = spellings' := by
  obtain ⟨left, come, ends⟩ := reads
  obtain ⟨left', come', ends'⟩ := reads'
  exact come.unique ends come' ends'

/-- The tokens of a text are those of its first part and those of what is left. -/
theorem Reads.of_readsTo (first : ReadsTo text spellings left) (others : Reads clean left later) :
    Reads clean text (spellings ++ later) := by
  obtain ⟨last, come, ends⟩ := others
  exact ⟨last, first.trans come, ends⟩

/-- The end of the source is read only at the end of the text. -/
theorem scanVisible_end (scanned : scanVisible text = .ok (spelling, length)) (ended : spelling.1 = .End) :
    text = [] ∧ spelling = (.End, []) := by
  cases text with
  | nil =>
    cases scanned
    exact ⟨rfl, rfl⟩
  | cons ch rest =>
    unfold scanVisible at scanned
    dsimp only at scanned
    repeat' split at scanned
    all_goals cases scanned
    all_goals try cases ended
    unfold wordSpelling at ended
    dsimp only at ended
    split at ended
    · cases ended
    · cases ended

/-- The end of a text is read again and again. -/
theorem Ends.again (ends : Ends clean text) (scanned : scanToken text = .ok (spelling, length)) :
    spelling = (.End, []) ∧ Ends clean (text.drop length) := by
  unfold Ends at ends
  rw [scanned] at ends
  obtain ⟨ended, rfl⟩ := ends
  obtain ⟨taken, visible, rfl⟩ := scanToken_eq_ok scanned
  obtain ⟨nothing, rfl⟩ := scanVisible_end visible ended
  rw [← List.drop_drop, nothing, List.drop_nil]
  exact ⟨rfl, rfl, rfl⟩

/-- A text without tokens ends. -/
theorem Reads.nil (reads : Reads clean text []) : Ends clean text := by
  obtain ⟨left, come, ends⟩ := reads
  cases come with
  | here => exact ends

theorem Reads.cons (reads : Reads clean text (spelling :: later)) :
    ∃ length, scanToken text = .ok (spelling, length) ∧ Reads clean (text.drop length) later := by
  obtain ⟨left, come, ends⟩ := reads
  cases come with
  | token notEnd scanned others =>
    refine ⟨_, scanned, left, ?_, ends⟩
    rw [List.drop_left]
    exact others

/-- What a successful read has found in the text that was left. -/
theorem readToken_eq_ok (ran : lexer.readToken = .ok (token, after)) :
    ∃ length, scanToken (lexer.source.drop lexer.position) = .ok (token.spelling, length) ∧
      after.position = lexer.position + length := by
  rw [readToken_scans] at ran
  cases scanned : scanToken (lexer.source.drop lexer.position) with
  | error ch =>
    rw [scanned] at ran
    cases ran
  | ok found =>
    rw [scanned] at ran
    cases ran
    exact ⟨found.2, rfl, rfl⟩

/-- What the lexer has still to read is what the text in front of it spells. -/
theorem reads_of_streams (streams : Streams clean lexer tokens) :
    Reads clean (lexer.source.drop lexer.position) (tokens.map Token.spelling) := by
  induction tokens generalizing lexer with
  | nil =>
    refine ⟨_, .here _, ?_⟩
    unfold Streams at streams
    unfold Ends
    split at streams
    · rename_i read
      obtain ⟨length, scanned, _⟩ := readToken_eq_ok read
      have scanned : scanToken (lexer.source.drop lexer.position) = _ := scanned
      rw [scanned]
      exact streams
    · rename_i e read
      rw [readToken_scans] at read
      cases scanned : scanToken (lexer.source.drop lexer.position) with
      | error ch => exact streams
      | ok found =>
        have scanned : scanToken (lexer.cursor.source.drop lexer.cursor.position) = _ := scanned
        rw [scanned] at read
        cases read
  | cons token rest ih =>
    obtain ⟨notEnd, after, read, streams⟩ := streams
    obtain ⟨length, scanned, moved⟩ := readToken_eq_ok read
    obtain ⟨left, come, ends⟩ := ih streams
    have source : after.source = lexer.source := by
      rw [(readToken_read read).moved]
      rfl
    have beyond : after.source.drop after.position = (lexer.source.drop lexer.position).drop length := by
      rw [source, moved, List.drop_drop]
      rfl
    rw [beyond] at come
    exact ⟨left, .cons notEnd scanned come, ends⟩

/-- A source has its tokens, line numbers aside, and they are the only ones. -/
theorem reads_tokensOf (source : Text) : Reads (readable source) source ((tokensOf source).map Token.spelling) :=
  reads_of_streams (at_tokensOf source).streams

end Lexer

end VirtualMachine
