import VirtualMachine.Assembler.Newlines
import VirtualMachine.Assembler.ProgramParsing

namespace VirtualMachine

namespace Source

open Lexer

/-- A line with nothing on it but blanks and a comment. -/
inductive EmptyLine : Text → Prop
  | blank {blanks : Text} (blank : blanks.all isBlank = true) : EmptyLine blanks
  | comment {blanks comment : Text} (blank : blanks.all isBlank = true) (short : '\n' ∉ comment) :
    EmptyLine (blanks ++ '#' :: comment)

/-- The place between the two texts is behind some tokens, and in front of the
next one. -/
def Between (before after : Text) : Prop :=
  ∃ count lexer, Lexer.behind count { source := before ++ after } = some lexer ∧
    lexer.position ≤ before.length ∧ before.length ≤ lexer.skipWhitespace.position

/-- What can be put into a source. -/
inductive Insertion : Text → Text → Prop
  | blanks {before after blanks : Text} (between : Between before after) (blank : blanks.all isBlank = true) :
    Insertion (before ++ after) (before ++ (blanks ++ after))
  | comment {before after comment : Text} (short : '\n' ∉ comment) (ends : after = [] ∨ ∃ rest, after = '\n' :: rest) :
    Insertion (before ++ after) (before ++ ('#' :: comment ++ after))
  | lineAbove {before after line : Text} (empty : EmptyLine line) :
    Insertion (before ++ '\n' :: after) (before ++ (line ++ '\n' :: '\n' :: after))
  | lineBelow {before after line : Text} (empty : EmptyLine line) :
    Insertion (before ++ '\n' :: after) (before ++ '\n' :: (line ++ '\n' :: after))

variable {text text' rest rest' front left left' line before after blanks comment : Text}
  {spellings later : List Spelling}
  {clean : Bool}

/-- All of the text is blanks and comments. -/
def Skipped (text : Text) : Prop := skipWhitespaceLength false text = text.length

/-- Blanks and comments are skipped one after the other, a comment up to the end of
its line. -/
theorem Skipped.append (skipped : Skipped text) (more : skipWhitespaceLength (text.contains '#') rest = rest.length) :
    Skipped (text ++ rest) := by
  have whole := skipWhitespaceLength_append skipped rest
  rw [Bool.false_or, more] at whole
  unfold Skipped
  rw [whole, List.length_append]

/-- A comment is skipped up to its end, -/
theorem skip_comment (short : '\n' ∉ text) : skipWhitespaceLength true text = text.length := by
  induction text with
  | nil => rfl
  | cons ch text ih =>
    rw [List.mem_cons, not_or] at short
    rw [skipWhitespaceLength_comment, if_neg (Ne.symm short.1), ih short.2, List.length_cons]

theorem newline_notMem_blanks (blank : blanks.all isBlank = true) : '\n' ∉ blanks := by
  intro member
  have impossible := List.all_eq_true.mp blank _ member
  cases impossible

/-- and blanks are skipped inside and outside of a comment, -/
theorem skip_blanks {inComment : Bool} (blank : blanks.all isBlank = true) :
    skipWhitespaceLength inComment blanks = blanks.length := by
  cases inComment with
  | true => exact skip_comment (newline_notMem_blanks blank)
  | false =>
    have skipped : skipWhitespaceLength false (blanks ++ []) = blanks.length := skipWhitespaceLength_blanks blank
    rw [List.append_nil] at skipped
    exact skipped

theorem contains_blanks (blank : blanks.all isBlank = true) : blanks.contains '#' = false := by
  by_contra hash
  rw [Bool.not_eq_false] at hash
  have impossible := List.all_eq_true.mp blank _ (List.contains_iff_mem.mp hash)
  cases impossible

/-- as is the sign that begins a comment, which may stand in one. -/
theorem skip_hash {inComment : Bool} (short : '\n' ∉ comment) :
    skipWhitespaceLength inComment ('#' :: comment) = comment.length + 1 := by
  cases inComment with
  | true => rw [skipWhitespaceLength_comment, if_neg (by decide), skip_comment short]
  | false => rw [skipWhitespaceLength_cons, if_neg (by decide), if_pos rfl, skip_comment short]

theorem EmptyLine.skip {inComment : Bool} (empty : EmptyLine line) :
    skipWhitespaceLength inComment line = line.length := by
  cases empty with
  | blank blank => exact skip_blanks blank
  | comment blank short =>
    rw [skipWhitespaceLength_append (skip_blanks blank), contains_blanks blank, Bool.or_false, skip_hash short,
      List.length_append, List.length_cons]

/-- What is left of a text when it has been skipped. -/
theorem Skipped.drop (skipped : Skipped text) (rest : Text) :
    (text ++ rest).drop (skipWhitespaceLength false (text ++ rest)) =
      rest.drop (skipWhitespaceLength (text.contains '#') rest) := by
  rw [skipWhitespaceLength_append skipped, Bool.false_or, ← List.drop_drop, List.drop_left]

/-- Nothing is skipped at the end of a line. -/
theorem skip_ended {inComment : Bool} (ends : rest = [] ∨ ∃ below, rest = '\n' :: below) :
    skipWhitespaceLength inComment rest = 0 := by
  rcases ends with rfl | ⟨below, rfl⟩
  · cases inComment <;> rfl
  · cases inComment <;> rfl

theorem Skipped.drop_ended (skipped : Skipped text) (ends : rest = [] ∨ ∃ below, rest = '\n' :: below) :
    (text ++ rest).drop (skipWhitespaceLength false (text ++ rest)) = rest := by
  rw [skipped.drop, skip_ended ends, List.drop_zero]

/-- The tokens of the one text are those of the other, but for newlines next to
a newline. -/
def Rereads (text text' : Text) : Prop :=
  ∀ clean spellings, Reads clean text spellings →
    ∃ spellings', Reads clean text' spellings' ∧ collapse spellings' = collapse spellings

/-- Tokens are read from what is left behind the blanks. -/
theorem reads_of_drop_eq
    (same : text.drop (skipWhitespaceLength false text) = text'.drop (skipWhitespaceLength false text'))
    (reads : Reads clean text spellings) : Reads clean text' spellings := by
  cases spellings with
  | nil =>
    refine ⟨text', .here _, ?_⟩
    have ends := reads.nil
    unfold Ends scanToken at ends ⊢
    rw [same] at ends
    cases scanned : scanVisible (text'.drop (skipWhitespaceLength false text')) with
    | error ch =>
      rw [scanned] at ends
      exact ends
    | ok found =>
      rw [scanned] at ends
      exact ends
  | cons spelling later =>
    obtain ⟨length, scanned, left, come, ends⟩ := reads.cons
    have notEnd : spelling.1 ≠ .End := by
      obtain ⟨_, comes, _⟩ := reads
      cases comes with
      | token notEnd _ _ => exact notEnd
    obtain ⟨taken, visible, rfl⟩ := scanToken_eq_ok scanned
    rw [← List.drop_drop, same, List.drop_drop] at come
    rw [same] at visible
    exact ⟨left, .cons notEnd (scanToken_of_visible rfl visible) come, ends⟩

/-- Texts that differ in what is skipped at their start have the same tokens. -/
theorem rereads_of_drop_eq
    (same : text.drop (skipWhitespaceLength false text) = text'.drop (skipWhitespaceLength false text')) :
    Rereads text text' :=
  fun _ _ reads => ⟨_, reads_of_drop_eq same reads, rfl⟩

/-- Every text has its tokens, up to a character that is rejected. -/
theorem exists_reads (text : Text) : ∃ clean spellings, Reads clean text spellings := ⟨_, _, reads_tokensOf text⟩

/-- What is behind some tokens can be changed in a way that makes no difference
to them. -/
theorem Rereads.behind (comes : ReadsTo (front ++ left) spellings left) (replaces : Replaces left left')
    (again : Rereads left left') : Rereads (front ++ left) (front ++ left') := by
  intro clean whole reads
  obtain ⟨clean', later, others⟩ := exists_reads left
  obtain ⟨rfl, rfl⟩ := reads.unique (Reads.of_readsTo comes others)
  obtain ⟨later', others', same⟩ := again _ _ others
  exact ⟨_, Reads.of_readsTo (comes.replace replaces) others', collapse_append spellings same⟩

/-- Sources with the same tokens, newlines put together, spell the same statements. -/
theorem read_eq_of_rereads {source source' : Text} (again : Rereads source source') :
    Source.read source' = Source.read source := by
  obtain ⟨spellings, reads, same⟩ := again _ _ (reads_tokensOf source)
  obtain ⟨readable_, rfl⟩ := (reads_tokensOf source').unique reads
  exact read_alike readable_ same

/-- A text that ends with blanks and comments, all tokens in front of them read. -/
def Settled (before tail : Text) : Prop :=
  ∃ front blank spellings, before = front ++ blank ∧ Skipped blank ∧
    ReadsTo (front ++ (blank ++ tail)) spellings (blank ++ tail)

/-- A text with a character that is rejected. -/
def Spoilt (before tail : Text) : Prop :=
  ∃ front left spellings ch, before = front ++ left ∧ skipWhitespaceLength false (left ++ tail) < left.length ∧
    scanToken (left ++ tail) = .error ch ∧ ReadsTo (front ++ (left ++ tail)) spellings (left ++ tail)

variable {tail tail' : Text} {spelling : Spelling} {length : Nat}

/-- A token in front of a text that has been read up to some place. -/
theorem readsTo_further {front left : Text} {spellings : List Spelling} (inside : length ≤ text.length)
    (notEnd : spelling.1 ≠ .End) (scanned : scanToken (text ++ tail) = .ok (spelling, length))
    (whole : text.drop length = front ++ left) (comes : ReadsTo (front ++ (left ++ tail)) spellings (left ++ tail)) :
    text = (text.take length ++ front) ++ left ∧
      ReadsTo ((text.take length ++ front) ++ (left ++ tail)) (spelling :: spellings) (left ++ tail) := by
  constructor
  · rw [List.append_assoc, ← whole, List.take_append_drop]
  · rw [List.append_assoc]
    refine .token notEnd ?_ comes
    rw [List.length_take_of_le inside, ← List.append_assoc front, ← whole, ← List.append_assoc, List.take_append_drop]
    exact scanned

/-- Whether all tokens in front of a place are read is decided token by token. -/
theorem Settled.cons (inside : length ≤ text.length) (notEnd : spelling.1 ≠ .End)
    (scanned : scanToken (text ++ tail) = .ok (spelling, length)) (settled : Settled (text.drop length) tail) :
    Settled text tail := by
  obtain ⟨front, blank, spellings, whole, skipped, comes⟩ := settled
  obtain ⟨whole', comes'⟩ := readsTo_further inside notEnd scanned whole comes
  exact ⟨text.take length ++ front, blank, spelling :: spellings, whole', skipped, comes'⟩

theorem Spoilt.cons (inside : length ≤ text.length) (notEnd : spelling.1 ≠ .End)
    (scanned : scanToken (text ++ tail) = .ok (spelling, length)) (spoilt : Spoilt (text.drop length) tail) :
    Spoilt text tail := by
  obtain ⟨front, left, spellings, ch, whole, visible, rejected, comes⟩ := spoilt
  obtain ⟨whole', comes'⟩ := readsTo_further inside notEnd scanned whole comes
  exact ⟨text.take length ++ front, left, spelling :: spellings, ch, whole', visible, rejected, comes'⟩

/-- In front of what stands apart all tokens are read, or one character is
rejected. -/
theorem settled_or_spoilt (before : Text) (apart : Apart tail) : Settled before tail ∨ Spoilt before tail := by
  induction size : before.length using Nat.strong_induction_on generalizing before with
  | _ count ih =>
    rcases Nat.lt_or_eq_of_le (skipWhitespaceLength_le false before) with short | whole
    · have skipped := skipWhitespaceLength_append_of_lt short tail
      cases scanned : scanToken (before ++ tail) with
      | error ch =>
        refine .inr ⟨[], before, [], ch, rfl, ?_, scanned, .here _⟩
        rw [skipped]
        exact short
      | ok found =>
        obtain ⟨spelling, length⟩ := found
        obtain ⟨taken, visible, rfl⟩ := scanToken_eq_ok scanned
        rw [skipped, List.drop_append_of_le_length (Nat.le_of_lt short)] at visible
        obtain ⟨ch, later, left⟩ : ∃ ch later, before.drop (skipWhitespaceLength false before) = ch :: later :=
          ⟨_, _, List.drop_eq_getElem_cons short⟩
        rw [left] at visible
        have notEnd : spelling.1 ≠ .End := by
          intro ended
          cases (scanVisible_end visible ended).1
        have within := scanVisible_within visible apart
        have sizes := congrArg List.length left
        rw [List.length_drop, List.length_cons] at sizes
        have inside : skipWhitespaceLength false (before ++ tail) + taken ≤ before.length := by omega
        have positive := (scanToken_bounds scanned notEnd).1
        have shorter : (before.drop (skipWhitespaceLength false (before ++ tail) + taken)).length < count := by
          rw [List.length_drop]
          omega
        rcases ih _ shorter _ rfl with settled | spoilt
        · exact .inl (settled.cons inside notEnd scanned)
        · exact .inr (spoilt.cons inside notEnd scanned)
    · exact .inl ⟨[], before, [], rfl, whole, .here _⟩

/-- Nothing behind a rejected character matters. -/
theorem rereads_of_spoilt (spoilt : Spoilt before tail) (tail' : Text) :
    Rereads (before ++ tail) (before ++ tail') := by
  obtain ⟨front, left, spellings, ch, rfl, visible, rejected, comes⟩ := spoilt
  have replaces : Replaces (left ++ tail) (left ++ tail') := by
    cases left with
    | nil => exact absurd visible (Nat.not_lt_zero _)
    | cons first left => exact .inr rfl
  rw [List.append_assoc, List.append_assoc]
  refine Rereads.behind comes replaces ?_
  intro clean later reads
  have fails : Reads false (left ++ tail) [] := by
    refine ⟨_, .here _, ?_⟩
    unfold Ends
    rw [rejected]
  obtain ⟨rfl, rfl⟩ := reads.unique fails
  refine ⟨[], ⟨_, .here _, ?_⟩, rfl⟩
  unfold Ends
  rw [scanToken_error visible rejected]

/-- Where all tokens are read, the text behind can be changed. -/
theorem rereads_of_settled (settled : Settled before tail) (apart : Apart tail')
    (again : ∀ blank, Skipped blank → Rereads (blank ++ tail) (blank ++ tail')) :
    Rereads (before ++ tail) (before ++ tail') := by
  obtain ⟨front, blank, spellings, rfl, skipped, comes⟩ := settled
  rw [List.append_assoc, List.append_assoc]
  exact Rereads.behind comes (Replaces.append (.inl apart) blank) (again blank skipped)

/-- What stands apart from the tokens in front may be changed for something else
that does. -/
theorem rereads_of_apart (apart : Apart tail) (apart' : Apart tail')
    (again : ∀ blank, Skipped blank → Rereads (blank ++ tail) (blank ++ tail')) :
    Rereads (before ++ tail) (before ++ tail') := by
  rcases settled_or_spoilt before apart with settled | spoilt
  · exact rereads_of_settled settled apart' again
  · exact rereads_of_spoilt spoilt tail'

/-- The end of a line stands apart, and so do blanks and empty lines. -/
theorem apart_of_ended (ends : tail = [] ∨ ∃ below, tail = '\n' :: below) : Apart tail := by
  rcases ends with rfl | ⟨below, rfl⟩
  · exact trivial
  · exact (by decide : isWordChar '\n' = false)

theorem apart_blanks (blank : blanks.all isBlank = true) (apart : blanks = [] → Apart tail) :
    Apart (blanks ++ tail) := by
  cases blanks with
  | nil => exact apart rfl
  | cons ch blanks =>
    have first : isBlank ch = true := (Bool.and_eq_true_iff.mp blank).1
    change isWordChar ch = false
    unfold isBlank at first
    rw [Bool.or_eq_true, Bool.or_eq_true, beq_iff_eq, beq_iff_eq, beq_iff_eq] at first
    rcases first with (rfl | rfl) | rfl <;> decide

theorem EmptyLine.apart (empty : EmptyLine line) (apart : Apart tail) : Apart (line ++ tail) := by
  cases empty with
  | blank blank => exact apart_blanks blank (fun _ => apart)
  | comment blank short =>
    rw [List.append_assoc]
    exact apart_blanks blank (fun _ => (by decide : isWordChar '#' = false))

/-- The lexer that is behind some tokens has read them. -/
theorem readsTo_of_behind {count : Nat} {lexer last : Lexer} (behind_ : Lexer.behind count lexer = some last) :
    last.source = lexer.source ∧
      ∃ spellings, ReadsTo (lexer.source.drop lexer.position) spellings (last.source.drop last.position) := by
  induction count generalizing lexer with
  | zero =>
    cases behind_
    exact ⟨rfl, [], .here _⟩
  | succ count ih =>
    unfold Lexer.behind at behind_
    cases read : lexer.readToken with
    | error e =>
      rw [read] at behind_
      cases behind_
    | ok found =>
      obtain ⟨token, after⟩ := found
      rw [read] at behind_
      dsimp only at behind_
      split at behind_
      · cases behind_
      rename_i notEnd
      obtain ⟨source, spellings, comes⟩ := ih behind_
      obtain ⟨length, scanned, moved⟩ := readToken_eq_ok read
      have same : after.source = lexer.source := by rw [(readToken_read read).moved]
      rw [moved, same, ← List.drop_drop] at comes
      exact ⟨source.trans same, token.spelling :: spellings, .cons notEnd scanned comes⟩

/-- Behind a token, all of its text is read. -/
theorem settled_of_between (between : Between before after) : Settled before after := by
  obtain ⟨count, lexer, behind_, from_, upTo⟩ := between
  obtain ⟨source, spellings, comes⟩ := readsTo_of_behind behind_
  have source : lexer.source = before ++ after := source
  have left : lexer.source.drop lexer.position = before.drop lexer.position ++ after := by
    rw [source, List.drop_append_of_le_length from_]
  have skipped : lexer.skipWhitespace.position =
      lexer.position + skipWhitespaceLength false (before.drop lexer.position ++ after) := by
    rw [← left]
    rfl
  rw [left] at comes
  refine ⟨before.take lexer.position, before.drop lexer.position, spellings, (List.take_append_drop _ _).symm, ?_, ?_⟩
  · have whole := List.length_drop (i := lexer.position) (l := before)
    rcases Nat.lt_or_eq_of_le (skipWhitespaceLength_le false (before.drop lexer.position)) with short | same
    · rw [skipWhitespaceLength_append_of_lt short] at skipped
      omega
    · exact same
  · rw [← List.append_assoc, List.take_append_drop]
    exact comes

/-- The three kinds of insertion: blanks between tokens, -/
theorem rereads_blanks (between : Between before after) (blank : blanks.all isBlank = true) :
    Rereads (before ++ after) (before ++ (blanks ++ after)) := by
  obtain ⟨front, skipped, spellings, rfl, whole, comes⟩ := settled_of_between between
  rw [List.append_assoc, List.append_assoc]
  refine Rereads.behind comes (Replaces.append ?_ skipped) (rereads_of_drop_eq ?_)
  · cases blanks with
    | nil => exact .inr rfl
    | cons ch blanks => exact .inl (apart_blanks blank (fun impossible => by cases impossible))
  · have longer : Skipped (skipped ++ blanks) := whole.append (skip_blanks blank)
    rw [← List.append_assoc, whole.drop, longer.drop, List.contains_append, contains_blanks blank, Bool.or_false]

/-- a comment at the end of a line, -/
theorem rereads_comment (short : '\n' ∉ comment) (ends : after = [] ∨ ∃ rest, after = '\n' :: rest) :
    Rereads (before ++ after) (before ++ ('#' :: comment ++ after)) := by
  refine rereads_of_apart (apart_of_ended ends) (by decide : isWordChar '#' = false) (fun blank skipped => ?_)
  refine rereads_of_drop_eq ?_
  have longer : Skipped (blank ++ '#' :: comment) := skipped.append (skip_hash short)
  rw [← List.append_assoc, skipped.drop_ended ends, longer.drop_ended ends]

def newlineSpelling : Spelling := (.Newline, ['\\', 'n'])

theorem Reads.newline (skipped : Skipped blanks) (reads : Reads clean after later) :
    Reads clean (blanks ++ '\n' :: after) (newlineSpelling :: later) := by
  obtain ⟨left, comes, ends⟩ := reads
  have here : (blanks ++ '\n' :: after).drop (skipWhitespaceLength false (blanks ++ '\n' :: after)) = '\n' :: after :=
    skipped.drop_ended (.inr ⟨after, rfl⟩)
  refine ⟨left, .cons (by decide) (scanToken_of_visible rfl (by rw [here]; rfl)) ?_, ends⟩
  rw [← List.drop_drop, here]
  exact comes

/-- A newline more, with nothing between it and the other one. -/
theorem rereads_newline {blanks' : Text} (skipped : Skipped blanks) (skipped' : Skipped blanks')
    (empty : Skipped line) :
    Rereads (blanks ++ '\n' :: after) (blanks' ++ '\n' :: (line ++ '\n' :: after)) := by
  intro clean spellings reads
  obtain ⟨clean', later, below⟩ := exists_reads after
  obtain ⟨rfl, rfl⟩ := reads.unique (Reads.newline skipped below)
  exact ⟨_, Reads.newline skipped' (Reads.newline empty below), collapse_newline rfl rfl⟩

/-- and, with lines that are empty, any of them. -/
theorem rereads_insertion {source source' : Text} (insertion : Insertion source source') : Rereads source source' := by
  have newline : ∀ rest : Text, Apart ('\n' :: rest) := fun _ => (by decide : isWordChar '\n' = false)
  cases insertion with
  | blanks between blank => exact rereads_blanks between blank
  | comment short ends => exact rereads_comment short ends
  | lineAbove empty =>
    refine rereads_of_apart (newline _) (empty.apart (newline _)) (fun blank skipped => ?_)
    rw [← List.append_assoc]
    have nothing : Skipped [] := rfl
    exact rereads_newline skipped (skipped.append empty.skip) nothing
  | lineBelow empty =>
    refine rereads_of_apart (newline _) (newline _) (fun blank skipped => ?_)
    exact rereads_newline skipped skipped empty.skip

/-- However many insertions are made, a source is rejected exactly when it was,
and assembles to the same program. -/
theorem layout_insensitive {source source' : Text} (insertions : Relation.ReflTransGen Insertion source source') :
    (assemble source').toOption = (assemble source).toOption := by
  induction insertions with
  | refl => rfl
  | tail _ insertion same =>
    rw [← same, Parser.assemble_toOption, Parser.assemble_toOption, read_eq_of_rereads (rereads_insertion insertion)]

/-- A comment line between two statements. -/
theorem layout_insensitive_comment :
    (assemble "CODE:\n# stop\nhalt".toList).toOption = (assemble "CODE:\nhalt".toList).toOption := by
  have none_ : ([] : Text).all isBlank = true := rfl
  have empty : EmptyLine ([] ++ '#' :: " stop".toList) := .comment none_ (by decide)
  have insertion : Insertion ("CODE:".toList ++ '\n' :: "halt".toList)
      ("CODE:".toList ++ '\n' :: ("# stop".toList ++ '\n' :: "halt".toList)) := .lineBelow empty
  exact layout_insensitive (.single insertion)

end Source

end VirtualMachine
