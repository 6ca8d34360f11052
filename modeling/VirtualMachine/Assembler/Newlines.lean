import VirtualMachine.Assembler.Grammar
import VirtualMachine.Assembler.Scanning
import VirtualMachine.Library.PartialFold

namespace VirtualMachine

namespace Source

open Lexer PartialFold

/-- Tokens with each run of newlines put together. -/
def collapse : List Spelling → List Spelling
  | [] => []
  | spelling :: rest =>
    if spelling.1 = .Newline ∧ (collapse rest).head?.map Prod.fst = some .Newline then collapse rest
    else spelling :: collapse rest

/-- Tokens that are the same but for lines and for the lengths of runs of
newlines. -/
def Alike (tokens tokens' : List Token) : Prop :=
  collapse (tokens.map Token.spelling) = collapse (tokens'.map Token.spelling)

variable {spelling : Spelling} {spellings : List Spelling} {tokens tokens' rest rest' : List Token}
  {token token' : Token}

/-- Putting newlines together keeps the type of the first token. -/
theorem collapse_head (spellings : List Spelling) :
    (collapse spellings).head?.map Prod.fst = spellings.head?.map Prod.fst := by
  cases spellings with
  | nil => rfl
  | cons spelling rest =>
    unfold collapse
    split
    · rename_i newlines
      rw [newlines.2, List.head?_cons, Option.map_some, newlines.1]
    · rfl

/-- A token other than a newline is kept. -/
theorem collapse_visible (visible : spelling.1 ≠ .Newline) :
    collapse (spelling :: spellings) = spelling :: collapse spellings :=
  if_neg (fun newlines => visible newlines.1)

theorem collapse_token (visible : token.type ≠ .Newline) :
    collapse (token.spelling :: spellings) = token.spelling :: collapse spellings := collapse_visible visible

/-- A newline in front of another one goes. -/
theorem collapse_newline (newline : spelling.1 = .Newline) (more : spellings.head?.map Prod.fst = some .Newline) :
    collapse (spelling :: spellings) = collapse spellings :=
  if_pos ⟨newline, (collapse_head spellings).trans more⟩

/-- What is put in front of tokens that are alike leaves them alike. -/
theorem collapse_append (front : List Spelling) {spellings spellings' : List Spelling}
    (same : collapse spellings' = collapse spellings) :
    collapse (front ++ spellings') = collapse (front ++ spellings) := by
  induction front with
  | nil => exact same
  | cons first front ih =>
    rw [List.cons_append, List.cons_append]
    unfold collapse
    rw [ih]

theorem Alike.refl (tokens : List Token) : Alike tokens tokens := Eq.refl _

theorem Alike.symm (alike : Alike tokens tokens') : Alike tokens' tokens := Eq.symm alike

/-- Tokens that are alike have first tokens of one type. -/
theorem Alike.head (alike : Alike tokens tokens') : tokens.head?.map Token.type = tokens'.head?.map Token.type := by
  have heads := congrArg (fun spellings => spellings.head?.map Prod.fst) alike
  rw [collapse_head, collapse_head, List.head?_map, List.head?_map, Option.map_map, Option.map_map] at heads
  exact heads

/-- Tokens that are alike begin with the same token, unless with newlines. -/
theorem Alike.cons (alike : Alike (token :: rest) tokens') (visible : token.type ≠ .Newline) :
    ∃ token' rest', tokens' = token' :: rest' ∧ token'.spelling = token.spelling ∧ Alike rest rest' := by
  have heads := alike.head
  cases tokens' with
  | nil => cases heads
  | cons token' rest' =>
    have types : token.type = token'.type := Option.some.inj heads
    have visible' : token'.type ≠ .Newline := types ▸ visible
    unfold Alike at alike
    rw [List.map_cons, List.map_cons, collapse_token visible, collapse_token visible'] at alike
    obtain ⟨same, others⟩ := List.cons.inj alike
    exact ⟨token', rest', rfl, same.symm, others⟩

/-- Only the empty list is like the empty list. -/
theorem Alike.nil (alike : Alike [] tokens') : tokens' = [] := by
  cases tokens' with
  | nil => rfl
  | cons token' rest' => cases alike.head

def isNewlineSpelling (spelling : Spelling) : Bool := spelling.1 = .Newline

/-- Dropping the newlines in front commutes with putting newlines together. -/
theorem collapse_dropWhile (tokens : List Token) :
    collapse ((tokens.dropWhile isNewline).map Token.spelling) =
      (collapse (tokens.map Token.spelling)).dropWhile isNewlineSpelling := by
  induction tokens with
  | nil => rfl
  | cons token rest ih =>
    by_cases newline : token.type = .Newline
    · have first : isNewlineSpelling token.spelling = true := decide_eq_true newline
      rw [List.dropWhile_cons_of_pos (isNewline_iff.mpr newline), ih, List.map_cons]
      conv_rhs => unfold collapse
      split
      · rfl
      · rw [List.dropWhile_cons_of_pos first]
    · have first : ¬ isNewlineSpelling token.spelling = true := mt of_decide_eq_true newline
      rw [List.dropWhile_cons_of_neg (mt isNewline_iff.mp newline), List.map_cons, collapse_token newline,
        List.dropWhile_cons_of_neg first]

/-- So tokens stay alike when the newlines in front of both are dropped. -/
theorem Alike.dropWhile (alike : Alike tokens tokens') :
    Alike (tokens.dropWhile isNewline) (tokens'.dropWhile isNewline) := by
  unfold Alike at alike ⊢
  rw [collapse_dropWhile, collapse_dropWhile, alike]

/-- The same is read, and what is left is alike. -/
def SameRead {α : Type} (read read' : α × List Token) : Prop := read.1 = read'.1 ∧ Alike read.2 read'.2

/-- The readers of the grammar are built from `expect`, which does the same on both
lists. Each lemma below carries this one level up, to whole programs. -/
theorem expect_alike {type : TokenType} (visible : type ≠ .Newline) (alike : Alike tokens tokens') :
    Option.Rel (fun read read' => read.1.text = read'.1.text ∧ Alike read.2 read'.2) (expect type tokens)
      (expect type tokens') := by
  cases tokens with
  | nil =>
    rw [alike.nil]
    exact .none
  | cons token rest =>
    by_cases same : token.type = type
    · obtain ⟨token', rest', rfl, spelling, others⟩ := alike.cons (same ▸ visible)
      have types : token'.type = type := (congrArg Prod.fst spelling).trans same
      rw [expect_of_eq same, expect_of_eq types]
      exact .some ⟨(congrArg Prod.snd spelling).symm, others⟩
    · rw [expect_of_ne same]
      cases tokens' with
      | nil => exact .none
      | cons token' rest' =>
        have types : token.type = token'.type := Option.some.inj alike.head
        rw [expect_of_ne (types ▸ same)]
        exact .none

theorem readMemory_alike (alike : Alike tokens tokens') : Option.Rel SameRead (readMemory tokens)
    (readMemory tokens') := by
  refine rel_bind (expect_alike (by decide) alike) (fun symbol symbol' same => ?_)
  refine rel_map (expect_alike (by decide) same.2) (fun _ _ bracket => ⟨?_, bracket.2⟩)
  rw [same.1]

/-- One operand: its first token is of the same type in both. -/
theorem readOperand_alike (alike : Alike tokens tokens') :
    Option.Rel SameRead (readOperand tokens) (readOperand tokens') := by
  cases tokens with
  | nil =>
    rw [alike.nil]
    exact .none
  | cons token rest =>
    by_cases newline : token.type = .Newline
    · cases tokens' with
      | nil => cases alike.head
      | cons token' rest' =>
        have types : token.type = token'.type := Option.some.inj alike.head
        rw [readOperand_cons, readOperand_cons, ← types, newline]
        exact .none
    · obtain ⟨token', rest', rfl, spelling, others⟩ := alike.cons newline
      have types : token'.type = token.type := congrArg Prod.fst spelling
      have texts : token'.text = token.text := congrArg Prod.snd spelling
      rw [readOperand_cons, readOperand_cons, types, texts]
      split
      · exact .some ⟨rfl, others⟩
      · exact .some ⟨rfl, others⟩
      · exact .some ⟨rfl, others⟩
      · exact readMemory_alike others
      · exact .none

theorem readColon_alike (alike : Alike tokens tokens') : Option.Rel Alike (readColon tokens) (readColon tokens') := by
  rw [readColon_eq, readColon_eq]
  exact rel_map (expect_alike (by decide) alike) (fun _ _ same => same.2)

theorem readComma_alike (alike : Alike tokens tokens') : Option.Rel Alike (readComma tokens) (readComma tokens') := by
  rw [readComma_eq, readComma_eq]
  exact rel_map (expect_alike (by decide) alike) (fun _ _ same => same.2)

/-- Any number of operands, by induction on how many are still to be read. -/
theorem readOperands_alike {count : Nat} (alike : Alike tokens tokens') :
    Option.Rel SameRead (readOperands count tokens) (readOperands count tokens') := by
  induction count using Nat.twoStepInduction generalizing tokens tokens' with
  | zero => exact .some ⟨rfl, alike⟩
  | one =>
    exact rel_map (readOperand_alike alike) (fun _ _ same => ⟨congrArg (fun operand => [operand]) same.1, same.2⟩)
  | more count _ ih =>
    refine rel_bind (readOperand_alike alike) (fun first first' same => ?_)
    refine rel_bind (readComma_alike same.2) (fun later later' comma => ?_)
    refine rel_bind (ih comma) (fun others others' rest => .some ⟨?_, rest.2⟩)
    rw [same.1, rest.1]

theorem readDeclaration_alike {type : Text} (alike : Alike tokens tokens') :
    Option.Rel SameRead (readDeclaration type tokens) (readDeclaration type tokens') := by
  rw [readDeclaration_eq, readDeclaration_eq]
  refine rel_bind (expect_alike (by decide) alike) (fun name name' same => ?_)
  refine rel_map (expect_alike (by decide) same.2) (fun value value' same' => ⟨?_, same'.2⟩)
  rw [same.1, same'.1]

theorem readInstruction_cons (type : token.type = .Identifier) (rest : List Token) :
    readInstruction (token :: rest) =
      (readOperands (arity token.text) rest).map (fun read => (⟨token.text, read.1⟩, read.2)) := by
  obtain ⟨type', text, line⟩ := token
  cases (type : type' = .Identifier)
  rfl

/-- A declaration, a label or an instruction. -/
theorem readOther_alike {section_ : SourceSection} (type : token.type = .Identifier)
    (same : token'.spelling = token.spelling)
    (alike : Alike rest rest') : Option.Rel SameRead (readOther section_ token rest)
    (readOther section_ token' rest') := by
  have type' : token'.type = .Identifier := (congrArg Prod.fst same).trans type
  have texts : token'.text = token.text := congrArg Prod.snd same
  unfold readOther
  rw [texts]
  cases section_ with
  | None => exact .none
  | Data => exact readDeclaration_alike alike
  | Code =>
    have colons := readColon_alike alike
    dsimp only
    generalize readColon rest = colon at colons ⊢
    generalize readColon rest' = colon' at colons ⊢
    cases colons with
    | some others => exact .some ⟨rfl, others⟩
    | none =>
      have instructions : Option.Rel SameRead (readInstruction (token :: rest))
        (readInstruction (token' :: rest')) := by
        rw [readInstruction_cons type, readInstruction_cons type', texts]
        exact rel_map (readOperands_alike alike) (fun _ _ same => ⟨congrArg (Instruction.mk token.text) same.1, same.2⟩)
      exact rel_map instructions (fun _ _ same => ⟨congrArg Statement.instruction same.1, same.2⟩)

/-- One statement, in either section. -/
theorem readStatement_alike {section_ : SourceSection} (alike : Alike tokens tokens') :
    Option.Rel SameRead (readStatement section_ tokens) (readStatement section_ tokens') := by
  cases tokens with
  | nil =>
    rw [alike.nil]
    exact .none
  | cons token rest =>
    by_cases type : token.type = .Identifier
    · obtain ⟨token', rest', rfl, spelling, others⟩ := alike.cons (by rw [type]; decide)
      have type' : token'.type = .Identifier := (congrArg Prod.fst spelling).trans type
      have texts : token'.text = token.text := congrArg Prod.snd spelling
      rw [readStatement_cons, readStatement_cons, if_neg (not_not_intro type), if_neg (not_not_intro type'), texts]
      split
      · exact rel_map (readColon_alike others) (fun _ _ same => ⟨rfl, same⟩)
      split
      · exact rel_map (readColon_alike others) (fun _ _ same => ⟨rfl, same⟩)
      · exact readOther_alike type spelling others
    · rw [readStatement_cons, if_pos type]
      cases tokens' with
      | nil => exact .none
      | cons token' rest' =>
        have types : token.type = token'.type := Option.some.inj alike.head
        rw [readStatement_cons, if_pos (types ▸ type)]
        exact .none

/-- The same statements are read, whatever the rounds that are left, as long as
they suffice. -/
theorem readStatements_alike {fuel fuel' : Nat} {section_ : SourceSection} (alike : Alike tokens tokens')
    (enough : tokens.length ≤ fuel) (enough' : tokens'.length ≤ fuel') :
    readStatements fuel section_ tokens = readStatements fuel' section_ tokens' := by
  induction fuel generalizing fuel' section_ tokens tokens' with
  | zero =>
    obtain rfl := List.eq_nil_of_length_eq_zero (Nat.le_zero.mp enough)
    rw [alike.nil, readStatements_nil rfl, readStatements_nil rfl]
  | succ fuel ih =>
    have visible := alike.dropWhile
    have short := (List.dropWhile_suffix isNewline (l := tokens)).length_le
    have short' := (List.dropWhile_suffix isNewline (l := tokens')).length_le
    cases here : tokens.dropWhile isNewline with
    | nil =>
      rw [here] at visible
      rw [readStatements_nil here, readStatements_nil visible.nil]
    | cons token rest =>
      cases here' : tokens'.dropWhile isNewline with
      | nil =>
        rw [here, here'] at visible
        cases visible.head
      | cons token' rest' =>
        rw [here, here'] at visible
        rw [here, List.length_cons] at short
        rw [here', List.length_cons] at short'
        obtain ⟨fuel', rfl⟩ : ∃ count, fuel' = count + 1 := ⟨fuel' - 1, by omega⟩
        rw [readStatements_cons here, readStatements_cons here']
        have reads : Option.Rel SameRead (readStatement section_ (token :: rest))
          (readStatement section_ (token' :: rest')) :=
          readStatement_alike visible
        cases read : readStatement section_ (token :: rest) with
        | none =>
          rw [read] at reads
          cases read' : readStatement section_ (token' :: rest') with
          | none => rfl
          | some _ =>
            rw [read'] at reads
            cases reads
        | some found =>
          rw [read] at reads
          cases read' : readStatement section_ (token' :: rest') with
          | none =>
            rw [read'] at reads
            cases reads
          | some found' =>
            rw [read'] at reads
            obtain ⟨same, others⟩ : SameRead found found' := by
              cases reads with
              | some same => exact same
            have left := (readStatement_consumes read).2.suffix.length_le
            have left' := (readStatement_consumes read').2.suffix.length_le
            have later : ∀ section_, readStatements fuel section_ found.2 = readStatements fuel' section_ found'.2 :=
              fun _ => ih others (by omega) (by omega)
            rw [Option.bind_some, Option.bind_some, same, later]

/-- Sources whose tokens are alike spell the same statements. -/
theorem read_alike {source source' : Text} (same : readable source' = readable source)
    (alike : Alike (tokensOf source') (tokensOf source)) : Source.read source' = Source.read source := by
  unfold Source.read
  rw [tokenize_eq, tokenize_eq, same]
  cases readable source with
  | false => rfl
  | true => exact readStatements_alike alike (Nat.le_refl _) (Nat.le_refl _)

end Source

end VirtualMachine
