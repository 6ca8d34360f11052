import VirtualMachine.Assembler.Grammar
import VirtualMachine.Assembler.Spelling

namespace VirtualMachine

open Lexer

def Operand.spellings : Operand → List Spelling
  | .register text => [(.Register, text)]
  | .number text => [(.Number, text)]
  | .name text => [(.Identifier, text)]
  | .memory text => [(.LBracket, ['[']), (.Identifier, text), (.RBracket, [']'])]

namespace Source

def operandsSpellings : List Operand → List Spelling
  | [] => []
  | [operand] => operand.spellings
  | operand :: operands => operand.spellings ++ (.Comma, [',']) :: operandsSpellings operands

def sectionName : SourceSection → Text
  | .Code => "CODE".toList
  | _ => "DATA".toList

def Statement.spellings : Statement → List Spelling
  | .openSection target => [(.Identifier, sectionName target), (.Colon, [':'])]
  | .declaration type name literal => [(.Identifier, type), (.Identifier, name), (.Number, literal)]
  | .label name => [(.Identifier, name), (.Colon, [':'])]
  | .instruction read => (.Identifier, read.mnemonic) :: operandsSpellings read.operands

/-- What a line of docs/ISA.md can hold: a statement of the grammar, or a system
call with no argument. -/
inductive Item
  | statement (statement : Statement)
  | bareCall (syscall : Text)
  deriving DecidableEq, Repr

def Item.spellings : Item → List Spelling
  | .statement read => read.spellings
  | .bareCall syscall => [(.Identifier, "call".toList), (.Identifier, syscall)]

structure Line where
  item : Option Item := none
  comment : Option Text := none
  deriving DecidableEq, Repr

def Line.spellings (line : Line) : List Spelling :=
  match line.item with
  | none => []
  | some item => item.spellings

def items (document : List Line) : List Item := document.filterMap Line.item

/-- The document is one way to read the text, which may put blanks as it likes. -/
def Spelled (document : List Line) (text : Text) : Prop :=
  SpellsLines (document.map (fun line => (line.spellings, line.comment))) text

def isReserved (name : Text) : Bool := name == "DATA".toList || name == "CODE".toList

/-- The statement can stand in the section. -/
def Statement.Fits (section_ : SourceSection) : Statement → Prop
  | .openSection target => target ≠ .None
  | .declaration type _ _ => section_ = .Data ∧ isReserved type = false
  | .label name => section_ = .Code ∧ isReserved name = false
  | .instruction read =>
    section_ = .Code ∧ isReserved read.mnemonic = false ∧ read.operands.length = arity read.mnemonic

def Item.Fits (section_ : SourceSection) : Item → Prop
  | .statement read => read.Fits section_
  | .bareCall _ => section_ = .Code

def Item.sectionAfter (section_ : SourceSection) : Item → SourceSection
  | .statement read => read.sectionAfter section_
  | .bareCall _ => section_

def FitFrom : SourceSection → List Item → Prop
  | _, [] => True
  | section_, item :: items => item.Fits section_ ∧ FitFrom (item.sectionAfter section_) items

/-- A statement ends with its line. -/
def EndsLine : List Token → Prop
  | [] => True
  | token :: _ => token.type = .Newline

variable {line : Nat} {rest : List Token}

theorem readOperand_spelled (operand : Operand) :
    readOperand (operand.spellings.map (Spelling.at line) ++ rest) = some (operand, rest) := by
  cases operand <;> rfl

theorem readOperands_spelled (operands : List Operand) :
    readOperands operands.length ((operandsSpellings operands).map (Spelling.at line) ++ rest) =
      some (operands, rest) := by
  induction operands with
  | nil => rfl
  | cons operand operands ih =>
    cases operands with
    | nil =>
      change (readOperand (operand.spellings.map (Spelling.at line) ++ rest)).map _ = _
      rw [readOperand_spelled]
      rfl
    | cons next operands =>
      have split : (operandsSpellings (operand :: next :: operands)).map (Spelling.at line) ++ rest =
          operand.spellings.map (Spelling.at line) ++
            (⟨.Comma, [','], line⟩ :: ((operandsSpellings (next :: operands)).map (Spelling.at line) ++ rest)) := by
        rw [operandsSpellings, List.map_append, List.map_cons, List.append_assoc]
        rfl
        intro impossible
        cases impossible
      have stepped : ∀ tokens, readOperands (operand :: next :: operands).length tokens =
          (readOperand tokens).bind (fun first => (readComma first.2).bind (fun later =>
            (readOperands (next :: operands).length later).bind
              (fun others => some (first.1 :: others.1, others.2)))) :=
        fun _ => rfl
      rw [split, stepped, readOperand_spelled, Option.bind_some]
      change (readOperands (next :: operands).length
        ((operandsSpellings (next :: operands)).map (Spelling.at line) ++ rest)).bind _ = _
      rw [ih]
      rfl

theorem readColon_endsLine (ends : EndsLine rest) : readColon rest = none := by
  rw [readColon_eq]
  cases rest with
  | nil => rfl
  | cons token rest =>
    have newline : token.type = .Newline := ends
    rw [expect_of_ne (by rw [newline]; decide)]
    rfl

theorem readColon_operands (operands : List Operand) (ends : EndsLine rest) :
    readColon ((operandsSpellings operands).map (Spelling.at line) ++ rest) = none := by
  cases operands with
  | nil => exact readColon_endsLine ends
  | cons operand operands => cases operands <;> cases operand <;> rfl

theorem not_reserved {name : Text} (free : isReserved name = false) : name ≠ "DATA".toList ∧ name ≠ "CODE".toList := by
  obtain ⟨data, code⟩ := Bool.or_eq_false_iff.mp free
  exact ⟨beq_eq_false_iff_ne.mp data, beq_eq_false_iff_ne.mp code⟩

/-- The grammar reads back a statement from its line. -/
theorem readStatement_spelled {section_ : SourceSection} {statement : Statement} (fits : statement.Fits section_)
    (ends : EndsLine rest) :
    readStatement section_ (statement.spellings.map (Spelling.at line) ++ rest) = some (statement, rest) := by
  cases statement with
  | openSection target =>
    cases target with
    | None => exact absurd rfl fits
    | Data => rfl
    | Code => rfl
  | declaration type name literal =>
    obtain ⟨rfl, free⟩ := fits
    obtain ⟨data, code⟩ := not_reserved free
    change readStatement .Data (⟨.Identifier, type, line⟩ :: ⟨.Identifier, name, line⟩ :: ⟨.Number, literal, line⟩ ::
      rest) = _
    rw [readStatement_cons, if_neg (not_not_intro rfl), if_neg data, if_neg code]
    rfl
  | label name =>
    obtain ⟨rfl, free⟩ := fits
    obtain ⟨data, code⟩ := not_reserved free
    change readStatement .Code (⟨.Identifier, name, line⟩ :: ⟨.Colon, [':'], line⟩ :: rest) = _
    rw [readStatement_cons, if_neg (not_not_intro rfl), if_neg data, if_neg code]
    rfl
  | instruction read =>
    obtain ⟨rfl, free, count⟩ := fits
    obtain ⟨data, code⟩ := not_reserved free
    change readStatement .Code (⟨.Identifier, read.mnemonic, line⟩ ::
      ((operandsSpellings read.operands).map (Spelling.at line) ++ rest)) = _
    rw [readStatement_cons, if_neg (not_not_intro rfl), if_neg data, if_neg code, readOther,
      readColon_operands read.operands ends]
    have spelled : readInstruction (⟨.Identifier, read.mnemonic, line⟩ ::
        ((operandsSpellings read.operands).map (Spelling.at line) ++ rest)) =
          (readOperands (arity read.mnemonic) ((operandsSpellings read.operands).map (Spelling.at line) ++ rest)).map
            (fun found => (⟨read.mnemonic, found.1⟩, found.2)) := rfl
    rw [spelled, ← count, readOperands_spelled]
    rfl

/-- A system call needs an argument. -/
theorem readStatement_bareCall {syscall : Text} (ends : EndsLine rest) :
    readStatement .Code ((Item.bareCall syscall).spellings.map (Spelling.at line) ++ rest) = none := by
  have noComma : readComma rest = none := by
    rw [readComma_eq]
    cases rest with
    | nil => rfl
    | cons token rest =>
      have newline : token.type = .Newline := ends
      rw [expect_of_ne (by rw [newline]; decide)]
      rfl
  have noPair : readPair (⟨.Identifier, syscall, line⟩ :: rest) = none := by
    change (readComma rest).bind _ = none
    rw [noComma]
    rfl
  have noOperands : readOperands (arity "call".toList) (⟨.Identifier, syscall, line⟩ :: rest) = none := by
    have two : arity "call".toList = 2 := by decide
    rw [two, readOperands_two, noPair]
    rfl
  change readStatement .Code (⟨.Identifier, "call".toList, line⟩ :: ⟨.Identifier, syscall, line⟩ :: rest) = none
  have noInstruction : readInstruction (⟨.Identifier, "call".toList, line⟩ :: ⟨.Identifier, syscall, line⟩ :: rest) =
    none := by
    change (readOperands (arity "call".toList) (⟨.Identifier, syscall, line⟩ :: rest)).map _ = none
    rw [noOperands]
    rfl
  have noColon : readColon (⟨.Identifier, syscall, line⟩ :: rest) = none := rfl
  have notData : "call".toList ≠ "DATA".toList := by decide
  have notCode : "call".toList ≠ "CODE".toList := by decide
  rw [readStatement_cons, if_neg (not_not_intro rfl), if_neg notData, if_neg notCode, readOther, noColon, noInstruction]
  rfl

def Item.statement? : Item → Option Statement
  | .statement read => some read
  | .bareCall _ => none

theorem lineTokens_more (line : Nat) (spellings : List Spelling) {others : List (List Spelling)} (more : others ≠ []) :
    lineTokens line (spellings :: others) =
      spellings.map (Spelling.at line) ++ ⟨.Newline, ['\\', 'n'], line⟩ :: lineTokens (line + 1) others := by
  cases others with
  | nil => exact absurd rfl more
  | cons next others => rfl

/-- What stands below a line begins with the newline. -/
theorem exists_below (line : Nat) (spellings : List Spelling) (others : List (List Spelling)) :
    ∃ below, lineTokens line (spellings :: others) = spellings.map (Spelling.at line) ++ below ∧ EndsLine below ∧
      ∀ fuel section_, readStatements fuel section_ below =
        readStatements fuel section_ (lineTokens (line + 1) others) := by
  by_cases more : others = []
  · subst more
    refine ⟨[], (List.append_nil _).symm, trivial, ?_⟩
    intro fuel section_
    rfl
  · refine ⟨⟨.Newline, ['\\', 'n'], line⟩ :: lineTokens (line + 1) others, lineTokens_more line spellings more, rfl, ?_⟩
    intro fuel section_
    rw [← readStatements_dropWhile, List.dropWhile_cons_of_pos rfl, readStatements_dropWhile]

theorem Item.spellings_cons (item : Item) : ∃ text others, item.spellings = (.Identifier, text) :: others := by
  cases item with
  | bareCall syscall => exact ⟨_, _, rfl⟩
  | statement read => cases read <;> exact ⟨_, _, rfl⟩

/-- The statements of a document are read back, unless a line of it is no
statement. -/
theorem readStatements_lines {document : List Line} {fuel : Nat} {section_ : SourceSection}
    (fit : FitFrom section_ (items document)) (enough : (items document).length ≤ fuel) :
    readStatements fuel section_ (lineTokens line (document.map Line.spellings)) =
      (items document).mapM Item.statement? := by
  induction document generalizing line fuel section_ with
  | nil => exact readStatements_nil rfl
  | cons first document ih =>
    obtain ⟨below, tokens, ends, same⟩ := exists_below line first.spellings (document.map Line.spellings)
    rw [List.map_cons, tokens]
    cases held : first.item with
    | none =>
      have blank : first.spellings = [] := by rw [Line.spellings, held]
      have skipped : items (first :: document) = items document := List.filterMap_cons_none held
      rw [skipped] at fit enough ⊢
      rw [blank, List.map_nil, List.nil_append, same]
      exact ih fit enough
    | some item =>
      have spelled : first.spellings = item.spellings := by rw [Line.spellings, held]
      have kept : items (first :: document) = item :: items document := List.filterMap_cons_some held
      rw [kept] at fit enough ⊢
      obtain ⟨here, later⟩ := fit
      obtain ⟨fuel, rfl⟩ : ∃ count, fuel = count + 1 := ⟨fuel - 1, by rw [List.length_cons] at enough; omega⟩
      rw [spelled]
      obtain ⟨text, others, begins⟩ := item.spellings_cons
      have visible : (item.spellings.map (Spelling.at line) ++ below).dropWhile isNewline =
          ⟨.Identifier, text, line⟩ :: (others.map (Spelling.at line) ++ below) := by
        rw [begins]
        rfl
      have whole : (⟨.Identifier, text, line⟩ :: (others.map (Spelling.at line) ++ below) : List Token) =
          item.spellings.map (Spelling.at line) ++ below := by
        rw [begins]
        rfl
      rw [readStatements_cons visible, whole]
      cases item with
      | bareCall syscall =>
        obtain rfl : section_ = .Code := here
        rw [readStatement_bareCall ends]
        rfl
      | statement read =>
        have found : readStatement section_ ((Item.statement read).spellings.map (Spelling.at line) ++ below) =
            some (read, below) := readStatement_spelled here ends
        have enough' : (items document).length ≤ fuel := Nat.le_of_succ_le_succ enough
        have others' : readStatements fuel (read.sectionAfter section_)
            (lineTokens (line + 1) (document.map Line.spellings)) = (items document).mapM Item.statement? :=
          ih later enough'
        rw [found, Option.bind_some, same, others', List.mapM_cons]
        cases (items document).mapM Item.statement? <;> rfl

/-- Every statement has a token of its own. -/
theorem items_length_le (document : List Line) :
    (items document).length ≤ (lineTokens line (document.map Line.spellings)).length := by
  induction document generalizing line with
  | nil => exact Nat.zero_le _
  | cons first document ih =>
    have later : (items document).length ≤ (lineTokens (line + 1) (document.map Line.spellings)).length := ih
    have least : (lineTokens (line + 1) (document.map Line.spellings)).length + first.spellings.length ≤
        (lineTokens line (first.spellings :: document.map Line.spellings)).length := by
      by_cases more : document.map Line.spellings = []
      · rw [more]
        simp [lineTokens]
      · rw [lineTokens_more line first.spellings more, List.length_append, List.length_map, List.length_cons]
        omega
    rw [List.map_cons]
    cases held : first.item with
    | none =>
      rw [items, List.filterMap_cons_none held]
      change (items document).length ≤ _
      omega
    | some item =>
      obtain ⟨text, others, begins⟩ := item.spellings_cons
      have token : first.spellings = (.Identifier, text) :: others := by rw [Line.spellings, held, ← begins]
      rw [token, List.length_cons] at least
      rw [items, List.filterMap_cons_some held, List.length_cons, token]
      change (items document).length + 1 ≤ _
      omega

/-- A text that spells a document has its statements, unless a line of it has a
comment or is no statement. -/
theorem read_of_spelled {document : List Line} {text : Text} (spelled : Spelled document text)
    (fit : FitFrom .None (items document)) :
    Source.read text =
      if ∀ line ∈ document, line.comment = none then (items document).mapM Item.statement? else none := by
  have tokens := tokenize_of_spells spelled
  have lines : (document.map (fun line => (line.spellings, line.comment))).map Prod.fst =
    document.map Line.spellings := by
    rw [List.map_map]
    rfl
  rw [lines] at tokens
  simp only [List.forall_mem_map] at tokens
  unfold Source.read
  rw [tokens]
  split
  · exact readStatements_lines fit (items_length_le document)
  · rfl

def renderTokens : List Spelling → Text
  | [] => []
  | (_, text) :: later => ' ' :: text ++ renderTokens later

def render : List Line → Text
  | [] => []
  | [line] => renderTokens line.spellings ++ commentText line.comment
  | line :: document => renderTokens line.spellings ++ commentText line.comment ++ '\n' :: render document

/-- The names and numbers of a document are such, and its comments end with
their lines. -/
def wellSpelled (document : List Line) : Bool :=
  document.all (fun line =>
    line.spellings.all (fun spelling => spelledAs spelling.1 spelling.2) && (line.comment.getD []).all (· != '\n'))

theorem spells_renderTokens {spellings : List Spelling}
    (each : spellings.all (fun spelling => spelledAs spelling.1 spelling.2) = true) :
    Spells spellings (renderTokens spellings) := by
  induction spellings with
  | nil => exact .nil rfl
  | cons spelling spellings ih =>
    obtain ⟨first, others⟩ := Bool.and_eq_true_iff.mp each
    have apart : Apart (renderTokens spellings) := by
      cases spellings with
      | nil => trivial
      | cons next spellings => exact (by decide : isWordChar ' ' = false)
    have blank : [' '].all isBlank = true := by decide
    exact .cons blank first (fun _ => apart) (ih others)

theorem spelled_render {document : List Line} (nonempty : document ≠ []) (spelled : wellSpelled document = true) :
    Spelled document (render document) := by
  induction document with
  | nil => exact absurd rfl nonempty
  | cons line document ih =>
    obtain ⟨here, others⟩ := Bool.and_eq_true_iff.mp spelled
    obtain ⟨tokens, comment⟩ := Bool.and_eq_true_iff.mp here
    have short : ∀ text ∈ line.comment, '\n' ∉ text := by
      intro text present member
      rw [Option.mem_def] at present
      rw [present] at comment
      exact absurd rfl (bne_iff_ne.mp (List.all_eq_true.mp comment '\n' member))
    cases document with
    | nil => exact .last (spells_renderTokens tokens) short
    | cons next document => exact .more (spells_renderTokens tokens) short (ih (List.cons_ne_nil _ _) others)

/-- A statement on a line of its own. -/
def plainLine (statement : Statement) : Line := { item := some (.statement statement) }

theorem items_plainLine (statements : List Statement) :
    items (statements.map plainLine) = statements.map Item.statement := by
  rw [items, List.filterMap_map]
  exact congrFun (List.filterMap_eq_map' (f := Item.statement)) statements

theorem wellSpelled_plainLines {statements : List Statement}
    (each : ∀ statement ∈ statements, wellSpelled [plainLine statement] = true) :
    wellSpelled (statements.map plainLine) = true := by
  refine List.all_eq_true.mpr ?_
  intro line member
  obtain ⟨statement, written, rfl⟩ := List.mem_map.mp member
  exact List.all_eq_true.mp (each statement written) _ List.mem_cons_self

theorem fitFrom_replicate {item : Item} {later : List Item} {section_ : SourceSection} (fits : item.Fits section_)
    (stays : item.sectionAfter section_ = section_) (rest : FitFrom section_ later) (count : Nat) :
    FitFrom section_ (List.replicate count item ++ later) := by
  induction count with
  | zero => exact rest
  | succ count ih =>
    refine ⟨fits, ?_⟩
    rw [stays]
    exact ih

/-- What is written is read back. -/
theorem read_render {statements : List Statement} (nonempty : statements ≠ [])
    (spelled : wellSpelled (statements.map plainLine) = true) (fit : FitFrom .None (statements.map Item.statement)) :
    Source.read (render (statements.map plainLine)) = some statements := by
  have spelled' := spelled_render (by simpa using nonempty) spelled
  rw [← items_plainLine] at fit
  have bare : ∀ line ∈ statements.map plainLine, line.comment = none := by
    intro line member
    obtain ⟨statement, _, rfl⟩ := List.mem_map.mp member
    rfl
  have whole : ∀ statements :
    List Statement, (statements.map Item.statement).mapM Item.statement? = some statements := by
    intro statements
    induction statements with
    | nil => rfl
    | cons statement statements ih =>
      rw [List.map_cons, List.mapM_cons, ih]
      rfl
  rw [read_of_spelled spelled' fit, if_pos bare, items_plainLine, whole]

end Source

end VirtualMachine
