import VirtualMachine.Assembler.Grammar
import Mathlib.Data.List.TakeWhile

namespace VirtualMachine

/-- The line of a position, counted from one. -/
def lineAt (source : Text) (position : Nat) : Nat := (source.take position).count '\n' + 1

/-- The line of a later position counts the newlines between. -/
theorem lineAt_add (source : Text) (position more : Nat) :
    lineAt source (position + more) = lineAt source position + ((source.drop position).take more).count '\n' := by
  unfold lineAt
  rw [List.take_add, List.count_append]
  omega

/-- Text without a newline is all on one line. -/
theorem lineAt_add_of_not_mem {source : Text} {position more : Nat} (single : '\n' ∉ (source.drop position).take more) :
    lineAt source (position + more) = lineAt source position := by
  rw [lineAt_add, List.count_eq_zero.mpr single, Nat.add_zero]

namespace Lexer

open Source

/-- No more is skipped than there is. -/
theorem skipWhitespaceLength_le (inComment : Bool) (text : Text) :
    skipWhitespaceLength inComment text ≤ text.length := by
  induction text generalizing inComment with
  | nil => cases inComment <;> exact Nat.le_refl _
  | cons ch rest ih =>
    have skips := fun other => Nat.succ_le_succ (ih other)
    cases inComment with
    | true =>
      unfold skipWhitespaceLength
      split
      · exact Nat.zero_le _
      · exact skips true
    | false =>
      unfold skipWhitespaceLength
      split
      · exact skips false
      split
      · exact skips true
      · exact Nat.zero_le _

/-- Neither blanks nor comments run over the end of a line. -/
theorem newline_notMem_skipped (inComment : Bool) (text : Text) :
    '\n' ∉ text.take (skipWhitespaceLength inComment text) := by
  induction text generalizing inComment with
  | nil => cases inComment <;> exact List.not_mem_nil
  | cons ch rest ih =>
    have skips : ∀ other, ch ≠ '\n' → '\n' ∉ (ch :: rest).take (skipWhitespaceLength other rest + 1) := by
      intro other visible
      rw [List.take_succ_cons, List.mem_cons, not_or]
      exact ⟨visible.symm, ih other⟩
    cases inComment with
    | true =>
      unfold skipWhitespaceLength
      split
      · exact List.not_mem_nil
      · rename_i visible
        exact skips true visible
    | false =>
      unfold skipWhitespaceLength
      split
      · rename_i blank
        refine skips false (fun newline => ?_)
        rw [newline] at blank
        exact absurd blank (by decide)
      split
      · rename_i hash
        refine skips true (fun newline => ?_)
        rw [hash] at newline
        exact absurd newline (by decide)
      · exact List.not_mem_nil

/-- Neither a word nor a number goes over the end of a line. -/
theorem newline_notMem_word (text : Text) : '\n' ∉ text.takeWhile isWordChar := by
  intro member
  exact absurd (List.mem_takeWhile_imp member) (by decide)

theorem newline_notMem_number (text : Text) : '\n' ∉ numberText text := by
  have digits : ∀ rest : Text, '\n' ∉ rest.takeWhile Char.isDigit := by
    intro rest member
    exact absurd (List.mem_takeWhile_imp member) (by decide)
  unfold numberText
  split
  · rw [List.mem_cons, not_or]
    exact ⟨by decide, digits _⟩
  · exact digits _

theorem numberText_isPrefix (text : Text) : numberText text <+: text := by
  unfold numberText
  split
  · exact (List.prefix_cons_inj _).mpr (List.takeWhile_prefix _)
  · exact List.takeWhile_prefix _

variable {lexer after : Lexer} {token : Token}

/-- Where a successful `readToken` has come from its blanks: to the end of the
source, over a newline, or over a text on the same line. -/
inductive Passed (lexer : Lexer) (token : Token) (after : Lexer) : Prop
  | ended (type : token.type = .End) (line : token.line = lexer.line) (same : after = lexer)
  | newline (type : token.type = .Newline) (line : token.line = lexer.line) (rest : Text)
    (left : lexer.source.drop lexer.position = '\n' :: rest)
    (same : after = { lexer with position := lexer.position + 1, line := lexer.line + 1 })
  | text (visible : token.type ≠ .Newline) (notEnd : token.type ≠ .End) (line : token.line = lexer.line)
    (start : token.text <+: lexer.source.drop lexer.position) (single : '\n' ∉ token.text)
    (same : after = { lexer with position := lexer.position + token.text.length })

/-- A text that is taken leaves the lexer behind it, on the same line. -/
theorem take_passed {type : TokenType} {text : Text} (visible : type ≠ .Newline ∧ type ≠ .End)
    (start : text <+: lexer.source.drop lexer.position) (single : '\n' ∉ text) :
    Passed lexer (lexer.take type text).1 (lexer.take type text).2 :=
  .text visible.1 visible.2 rfl start single rfl

theorem makeIdentifierOrRegister_passed :
    Passed lexer lexer.makeIdentifierOrRegister.1 lexer.makeIdentifierOrRegister.2 := by
  unfold makeIdentifierOrRegister
  dsimp only
  split
  · exact take_passed (by decide) (List.takeWhile_prefix _) (newline_notMem_word _)
  · exact take_passed (by decide) (List.takeWhile_prefix _) (newline_notMem_word _)

/-- Whatever is read, the lexer has passed it in one of these ways. -/
theorem readToken_passed (ran : lexer.readToken = .ok (token, after)) : Passed lexer.skipWhitespace token after := by
  unfold readToken at ran
  generalize lexer.skipWhitespace = lexer at ran ⊢
  dsimp only at ran
  cases left : lexer.source.drop lexer.position with
  | nil =>
    simp only [left] at ran
    cases ran
    exact .ended rfl rfl rfl
  | cons ch rest =>
    have single : ∀ type symbol, ch = symbol → type ≠ .Newline ∧ type ≠ .End → '\n' ∉ [symbol] →
        Passed lexer (lexer.take type [symbol]).1 (lexer.take type [symbol]).2 := by
      rintro type symbol rfl visible single
      refine take_passed visible ?_ single
      rw [left]
      exact ⟨rest, rfl⟩
    simp only [left] at ran
    split at ran
    · rename_i newline
      cases ran
      exact .newline rfl rfl rest (newline ▸ left) rfl
    split at ran
    · rename_i bracket
      cases ran
      exact single _ _ bracket (by decide) (by decide)
    split at ran
    · rename_i bracket
      cases ran
      exact single _ _ bracket (by decide) (by decide)
    split at ran
    · rename_i comma
      cases ran
      exact single _ _ comma (by decide) (by decide)
    split at ran
    · rename_i colon
      cases ran
      exact single _ _ colon (by decide) (by decide)
    split at ran
    · have passed : Passed lexer lexer.makeIdentifierOrRegister.1 lexer.makeIdentifierOrRegister.2 :=
        makeIdentifierOrRegister_passed
      rw [Except.ok.inj ran] at passed
      exact passed
    split at ran
    · have passed : Passed lexer lexer.makeNumber.1 lexer.makeNumber.2 :=
        take_passed (by decide) (numberText_isPrefix _) (newline_notMem_number _)
      rw [Except.ok.inj ran] at passed
      exact passed
    · cases ran

/-- The lexer rejects a character with the line that it is on. -/
theorem readToken_error {e : Exception} (ran : lexer.readToken = .error e) :
    ∃ message, e = .assemblerError lexer.line message := by
  have same : lexer.skipWhitespace.line = lexer.line := rfl
  rw [← same]
  unfold readToken at ran
  generalize lexer.skipWhitespace = lexer at ran ⊢
  dsimp only at ran
  cases left : lexer.source.drop lexer.position with
  | nil =>
    simp only [left] at ran
    cases ran
  | cons ch rest =>
    simp only [left] at ran
    repeat' split at ran
    all_goals first
      | cases ran
        done
      | exact ⟨_, (Except.error.inj ran).symm⟩

/-- A token has the line on which the lexer is, and only a newline ends it. -/
theorem readToken_line (ran : lexer.readToken = .ok (token, after)) :
    token.line = lexer.line ∧ after.line = lexer.line + [token].countP isNewline := by
  have same : lexer.skipWhitespace.line = lexer.line := rfl
  rw [← same, List.countP_singleton]
  cases readToken_passed ran with
  | ended type line same =>
    rw [if_neg (by rw [isNewline_iff, type]; decide), same]
    exact ⟨line, rfl⟩
  | newline type line rest left same =>
    rw [if_pos (isNewline_iff.mpr type), same]
    exact ⟨line, rfl⟩
  | text visible notEnd line start single same =>
    rw [if_neg (by rw [isNewline_iff]; exact visible), same]
    exact ⟨line, rfl⟩

/-- The line of the lexer is that of its position. -/
def Numbered (lexer : Lexer) : Prop := lexer.line = lineAt lexer.source lexer.position

/-- Skipping keeps the line right, as it stops in front of the next newline. -/
theorem Numbered.skipWhitespace (numbered : lexer.Numbered) : lexer.skipWhitespace.Numbered := by
  unfold Numbered Lexer.skipWhitespace
  dsimp only
  rw [lineAt_add_of_not_mem (newline_notMem_skipped _ _)]
  exact numbered

/-- So does reading a token: the line is counted up with the newline and not
otherwise. -/
theorem Numbered.readToken (numbered : lexer.Numbered) (ran : lexer.readToken = .ok (token, after)) :
    after.Numbered := by
  cases readToken_passed ran with
  | ended type line same =>
    rw [same]
    exact numbered.skipWhitespace
  | newline type line rest left same =>
    rw [same]
    unfold Numbered
    dsimp only
    rw [lineAt_add, left, numbered.skipWhitespace]
    rfl
  | text visible notEnd line start single same =>
    rw [same]
    unfold Numbered
    dsimp only
    rw [lineAt_add_of_not_mem]
    · exact numbered.skipWhitespace
    · rw [← List.prefix_iff_eq_take.mp start]
      exact single

/-- The token that the parser takes, peeked before or not. -/
theorem next_line (sound : lexer.Sound) (ran : lexer.next = .ok (token, after)) :
    token.line = lexer.line ∧ after.line = lexer.line + [token].countP isNewline := by
  obtain ⟨cursor, read, rfl⟩ := next_ok sound ran
  have line := readToken_line read
  exact line

/-- Next and peek reject what `readToken` does. -/
theorem error_of_map {α : Type} {f : Token × Lexer → α} {e : Exception}
    (ran : lexer.cursor.readToken.map f = .error e) :
    ∃ message, e = .assemblerError lexer.line message := by
  cases read : lexer.cursor.readToken with
  | error e' =>
    rw [read] at ran
    cases ran
    have line := readToken_error read
    exact line
  | ok found =>
    rw [read] at ran
    cases ran

/-- A rejected character is reported with the line of the lexer, also through a
peek. -/
theorem next_error {e : Exception} (sound : lexer.Sound) (ran : lexer.next = .error e) :
    ∃ message, e = .assemblerError lexer.line message := by
  rw [next_eq sound] at ran
  exact error_of_map ran

theorem peek_error {e : Exception} (sound : lexer.Sound) (ran : lexer.peek = .error e) :
    ∃ message, e = .assemblerError lexer.line message := by
  rw [peek_eq sound] at ran
  exact error_of_map ran

/-- The lexer behind this many tokens. -/
def behind : Nat → Lexer → Option Lexer
  | 0, lexer => some lexer
  | count + 1, lexer =>
    match lexer.readToken with
    | .error _ => none
    | .ok (token, after) => if token.type = .End then none else behind count after

/-- Where the token behind this many others starts; behind the last one it is
where the source ends, or the character that the lexer rejects. -/
def tokenStart (source : Text) (index : Nat) : Option Nat :=
  (behind index { source := source }).map (fun lexer => lexer.skipWhitespace.position)

variable {clean : Bool} {tokens : List Token} {source : Text}

/-- The lexer behind some tokens is on the line that they and their newlines lead
to. -/
theorem behind_of_streams {count : Nat} (plain : lexer.cursor = lexer) (numbered : lexer.Numbered)
    (streams : Streams clean lexer tokens) (inside : count ≤ tokens.length) :
    ∃ after, behind count lexer = some after ∧ after.Numbered ∧ after.source = lexer.source ∧
      after.line = lexer.line + (tokens.take count).countP isNewline := by
  induction count generalizing lexer tokens with
  | zero => exact ⟨lexer, rfl, numbered, rfl, rfl⟩
  | succ count ih =>
    cases tokens with
    | nil => exact absurd inside (Nat.not_succ_le_zero _)
    | cons token rest =>
      obtain ⟨notEnd, next, read, later⟩ := streams
      rw [plain] at read
      have source : next.source = lexer.source := by rw [(readToken_read read).moved]
      obtain ⟨after, ran, there, same, line⟩ :=
        ih (cursor_of_readToken plain read) (numbered.readToken read) later (Nat.le_of_succ_le_succ inside)
      refine ⟨after, ?_, there, same.trans source, ?_⟩
      · unfold behind
        rw [read]
        dsimp only
        rw [if_neg notEnd]
        exact ran
      · have counted : (token :: rest.take count).countP isNewline =
            [token].countP isNewline + (rest.take count).countP isNewline := by
          rw [← List.countP_append, List.singleton_append]
        rw [line, (readToken_line read).2, List.take_succ_cons, counted, Nat.add_assoc]

/-- The lines of the tokens are counted by the newlines before them. -/
theorem tokenStart_line {index : Nat} (start : At clean { source := source } tokens) (inside : index ≤ tokens.length) :
    ∃ position, tokenStart source index = some position ∧
      lineAt source position = 1 + (tokens.take index).countP isNewline := by
  have first : Numbered { source := source } := rfl
  obtain ⟨after, ran, numbered, same, line⟩ := behind_of_streams rfl first start.streams inside
  have same : after.source = source := same
  refine ⟨after.skipWhitespace.position, ?_, ?_⟩
  · unfold tokenStart
    rw [ran]
    rfl
  · have here : after.skipWhitespace.line = lineAt after.source after.skipWhitespace.position := numbered.skipWhitespace
    rw [← line, ← same, ← here]
    rfl

end Lexer

end VirtualMachine
