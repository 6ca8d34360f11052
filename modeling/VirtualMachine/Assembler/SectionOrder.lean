import VirtualMachine.Assembler.Translation

namespace VirtualMachine

namespace Source

open VirtualMachine.Parser

/-- A line of a data section. -/
structure Declaration where
  type : Text
  name : Text
  literal : Text
  deriving DecidableEq, Repr

/-- A line of a code section. -/
inductive CodeStatement
  | label (name : Text)
  | instruction (instruction : Instruction)
  deriving DecidableEq, Repr

def Declaration.statement (declaration : Declaration) : Statement :=
  .declaration declaration.type declaration.name declaration.literal

def CodeStatement.statement : CodeStatement → Statement
  | .label name => .label name
  | .instruction read => .instruction read

/-- `DATA:` and its lines, then `CODE:` and its lines. -/
def dataFirst (data : List Declaration) (code : List CodeStatement) : List Statement :=
  .openSection .Data :: data.map Declaration.statement ++ .openSection .Code :: code.map CodeStatement.statement

def codeFirst (data : List Declaration) (code : List CodeStatement) : List Statement :=
  .openSection .Code :: code.map CodeStatement.statement ++ .openSection .Data :: data.map Declaration.statement

/-- No instruction names a data symbol. -/
def NamesNoSymbol (code : List CodeStatement) : Prop :=
  ∀ read, .instruction read ∈ code → ∀ symbol, .memory symbol ∉ read.operands

def Declaration.Storable (declaration : Declaration) : Prop :=
  (dataType? declaration.type).isSome = true ∧ (immediate? declaration.literal).isSome = true

/-- A parser that knows the labels and the symbols of two sections. -/
def knowing (data : List Declaration) (code : List CodeStatement) : Parser :=
  { lexer := { source := [] }
    labels := fun name => if .label name ∈ code then some 0 else none
    dataSymbols := data.map (fun declaration => { name := declaration.name, type := .Byte, value := 0, offset := 0 }) }

/-- Every line is well formed once all labels and symbols are known. -/
def WellFormed (data : List Declaration) (code : List CodeStatement) : Prop :=
  (∀ declaration ∈ data, declaration.Storable) ∧
    ∀ read, .instruction read ∈ code → (read.word? true (knowing data code)).isSome = true

variable {emit emit' : Bool} {parser parser' after : Parser} {operand first : Operand} {read : Instruction}
  {opcode : Opcode}
  {mnemonic : Text} {rd : Byte}

theorem target?_congr (labels : parser.labels = parser'.labels) (name : Text) :
    target? emit parser name = target? emit parser' name := by
  unfold target?
  rw [labels]

theorem oneOperandWord?_congr (labels : parser.labels = parser'.labels) :
    oneOperandWord? emit parser mnemonic operand = oneOperandWord? emit parser' mnemonic operand := by
  have push : pushWord? emit parser operand = pushWord? emit parser' operand := by
    cases operand with
    | name label => exact congrArg (Option.map _) (target?_congr labels label)
    | register name => rfl
    | number literal => rfl
    | memory symbol => rfl
  have jump : ∀ opcode, jumpWord? emit parser opcode operand = jumpWord? emit parser' opcode operand := by
    intro opcode
    cases operand with
    | name label => exact congrArg (Option.map _) (target?_congr labels label)
    | register name => rfl
    | number literal => rfl
    | memory symbol => rfl
  unfold oneOperandWord?
  rw [push]
  simp only [jump]

theorem twoOperandsWord?_congr (same : offset? parser operand = offset? parser' operand) :
    twoOperandsWord? emit parser mnemonic first operand = twoOperandsWord? emit parser' mnemonic first operand := by
  have call : callWord? emit parser operand first = callWord? emit parser' operand first := by
    unfold callWord?
    rw [same]
  have transfer : ∀ opcode rd, transferWord? parser opcode rd operand = transferWord? parser' opcode rd operand := by
    intro opcode rd
    unfold transferWord?
    rw [same]
  have operation : ∀ opcode rd, operationWord? emit parser opcode rd operand =
    operationWord? emit parser' opcode rd operand := by
    intro opcode rd
    cases operand with
    | memory symbol =>
      unfold operationWord?
      dsimp only
      rw [transfer]
    | register name => rfl
    | number literal => rfl
    | name label => rfl
  unfold twoOperandsWord?
  rw [call]
  simp only [transfer, operation]

theorem word?_congr (labels : parser.labels = parser'.labels)
    (offsets : ∀ operand ∈ read.operands, offset? parser operand = offset? parser' operand) :
    read.word? emit parser = read.word? emit parser' := by
  obtain ⟨mnemonic, operands⟩ := read
  unfold Instruction.word?
  match operands, offsets with
  | [], _ => rfl
  | [operand], _ => exact oneOperandWord?_congr labels
  | [first, second], offsets =>
    exact twoOperandsWord?_congr (offsets second (List.mem_cons_of_mem _ List.mem_cons_self))
  | _ :: _ :: _ :: _, _ => rfl

/-- The second parser knows what the first one does, as far as its pass asks. -/
structure KnowsMore (emit : Bool) (parser : Parser) (emit' : Bool) (parser' : Parser) : Prop where
  asks : emit' = true → emit = true
  labels : emit' = true → ∀ name, (parser.labels name).isSome = true → (parser'.labels name).isSome = true
  symbols : ∀ name, (symbolOffset? parser name).isSome = true → (symbolOffset? parser' name).isSome = true

namespace KnowsMore

theorem target_isSome (more : KnowsMore emit parser emit' parser') {name : Text}
    (known : (target? emit parser name).isSome = true) : (target? emit' parser' name).isSome = true := by
  unfold target? at known ⊢
  cases asked : emit' with
  | false => rfl
  | true =>
    rw [more.asks asked, if_pos rfl] at known
    exact more.labels asked name known

theorem syscall_isSome (more : KnowsMore emit parser emit' parser') {name : Text}
    (known : (syscall? emit name).isSome = true) : (syscall? emit' name).isSome = true := by
  unfold syscall? at known ⊢
  cases asked : emit' with
  | false => rfl
  | true =>
    rw [more.asks asked] at known
    exact known

theorem offset_isSome (more : KnowsMore emit parser emit' parser') (known : (offset? parser operand).isSome = true) :
    (offset? parser' operand).isSome = true := by
  cases operand with
  | memory symbol => exact more.symbols symbol known
  | number literal => exact known
  | register name => cases known
  | name name => cases known

theorem oneOperandWord_isSome (more : KnowsMore emit parser emit' parser')
    (made : (oneOperandWord? emit parser mnemonic operand).isSome = true) :
    (oneOperandWord? emit' parser' mnemonic operand).isSome = true := by
  have push (made : (pushWord? emit parser operand).isSome = true) :
    (pushWord? emit' parser' operand).isSome = true := by
    cases operand with
    | name label => exact (Option.isSome_map).trans (more.target_isSome (Option.isSome_map.symm.trans made))
    | register name => exact made
    | number literal => exact made
    | memory symbol => cases made
  have jump (opcode : Opcode) (made : (jumpWord? emit parser opcode operand).isSome = true) :
      (jumpWord? emit' parser' opcode operand).isSome = true := by
    cases operand with
    | name label => exact (Option.isSome_map).trans (more.target_isSome (Option.isSome_map.symm.trans made))
    | register name => cases made
    | number literal => cases made
    | memory symbol => cases made
  unfold oneOperandWord? at made ⊢
  split
  · rename_i pushes
    rw [if_pos pushes] at made
    exact push made
  · rename_i apart
    rw [if_neg apart] at made
    split
    · rename_i pops
      rw [if_pos pops] at made
      exact made
    · rename_i apart
      rw [if_neg apart] at made
      obtain ⟨word, made⟩ := Option.isSome_iff_exists.mp made
      obtain ⟨opcode, known, made⟩ := Option.bind_eq_some_iff.mp made
      rw [known, Option.bind_eq_bind, Option.bind_some]
      split
      · rename_i jumps
        rw [if_pos jumps] at made
        exact jump opcode (Option.isSome_iff_exists.mpr ⟨word, made⟩)
      · rename_i stays
        rw [if_neg stays] at made
        exact Option.isSome_iff_exists.mpr ⟨word, made⟩

theorem twoOperandsWord_isSome (more : KnowsMore emit parser emit' parser')
    (made : (twoOperandsWord? emit parser mnemonic first operand).isSome = true) :
    (twoOperandsWord? emit' parser' mnemonic first operand).isSome = true := by
  have call (made : (callWord? emit parser operand first).isSome = true) :
    (callWord? emit' parser' operand first).isSome = true := by
    cases first with
    | name name =>
      obtain ⟨word, made⟩ := Option.isSome_iff_exists.mp made
      obtain ⟨offset, found, made⟩ := Option.bind_eq_some_iff.mp made
      obtain ⟨id, known, made⟩ := Option.bind_eq_some_iff.mp made
      obtain ⟨offset', found'⟩ :=
        Option.isSome_iff_exists.mp (more.offset_isSome (Option.isSome_iff_exists.mpr ⟨offset, found⟩))
      obtain ⟨id', known'⟩ := Option.isSome_iff_exists.mp
        (more.syscall_isSome (Option.isSome_iff_exists.mpr ⟨id, known⟩))
      unfold callWord?
      dsimp only
      rw [found', Option.bind_eq_bind, Option.bind_some, known']
      rfl
    | register name => cases made
    | number literal => cases made
    | memory symbol => cases made
  have transfer (opcode : Opcode) (rd : Byte) (made : (transferWord? parser opcode rd operand).isSome = true) :
      (transferWord? parser' opcode rd operand).isSome = true :=
    (Option.isSome_map).trans (more.offset_isSome (Option.isSome_map.symm.trans made))
  have operation (opcode : Opcode) (rd : Byte) (made : (operationWord? emit parser opcode rd operand).isSome = true) :
      (operationWord? emit' parser' opcode rd operand).isSome = true := by
    cases operand with
    | memory symbol =>
      unfold operationWord? at made ⊢
      dsimp only at made ⊢
      split at made
      · rename_i allowed
        have allowed' : opcode = .MOV ∨ emit' = false := by
          rcases allowed with mov | quiet
          · exact .inl mov
          · refine .inr (Bool.eq_false_iff.mpr fun asked => ?_)
            rw [more.asks asked] at quiet
            cases quiet
        rw [if_pos allowed']
        exact transfer _ _ made
      · cases made
    | register name => exact made
    | number literal => exact made
    | name label => cases made
  unfold twoOperandsWord? at made ⊢
  split
  · rename_i calls
    rw [if_pos calls] at made
    exact call made
  · rename_i apart
    rw [if_neg apart] at made
    obtain ⟨word, made⟩ := Option.isSome_iff_exists.mp made
    obtain ⟨opcode, known, made⟩ := Option.bind_eq_some_iff.mp made
    obtain ⟨rd, register, made⟩ := Option.bind_eq_some_iff.mp made
    rw [known, register, Option.bind_eq_bind, Option.bind_some, Option.bind_eq_bind, Option.bind_some]
    split
    · rename_i transfers
      rw [if_pos transfers] at made
      exact transfer opcode rd (Option.isSome_iff_exists.mpr ⟨word, made⟩)
    · rename_i operates
      rw [if_neg operates] at made
      exact operation opcode rd (Option.isSome_iff_exists.mpr ⟨word, made⟩)

theorem word_isSome (more : KnowsMore emit parser emit' parser') (made : (read.word? emit parser).isSome = true) :
    (read.word? emit' parser').isSome = true := by
  obtain ⟨mnemonic, operands⟩ := read
  unfold Instruction.word? at made ⊢
  match operands with
  | [] => exact made
  | [operand] => exact more.oneOperandWord_isSome made
  | [first, second] => exact more.twoOperandsWord_isSome made
  | _ :: _ :: _ :: _ => cases made

end KnowsMore

/-- A memory operand needs its symbol in either pass. -/
theorem symbol_of_word {symbol : Text} (names : .memory symbol ∈ read.operands)
    (made : (read.word? emit parser).isSome = true) :
    (symbolOffset? parser symbol).isSome = true := by
  obtain ⟨mnemonic, operands⟩ := read
  unfold Instruction.word? at made
  match operands with
  | [] => cases names
  | [operand] =>
    obtain rfl := List.mem_singleton.mp names
    dsimp only at made
    unfold oneOperandWord? at made
    split at made
    · cases made
    · split at made
      · cases made
      · obtain ⟨word, made⟩ := Option.isSome_iff_exists.mp made
        obtain ⟨opcode, _, made⟩ := Option.bind_eq_some_iff.mp made
        split at made
        · cases made
        · split at made <;> cases made
  | [first, second] =>
    obtain ⟨word, made⟩ := Option.isSome_iff_exists.mp made
    change twoOperandsWord? emit parser mnemonic first second = some word at made
    unfold twoOperandsWord? at made
    rcases List.mem_cons.mp names with rfl | names
    · split at made
      · cases made
      · obtain ⟨opcode, _, made⟩ := Option.bind_eq_some_iff.mp made
        obtain ⟨rd, register, _⟩ := Option.bind_eq_some_iff.mp made
        cases register
    · obtain rfl := List.mem_singleton.mp names
      split at made
      · cases first with
        | name name =>
          obtain ⟨offset, found, _⟩ := Option.bind_eq_some_iff.mp made
          exact Option.isSome_iff_exists.mpr ⟨offset, found⟩
        | register name => cases made
        | number literal => cases made
        | memory other => cases made
      · obtain ⟨opcode, _, made⟩ := Option.bind_eq_some_iff.mp made
        obtain ⟨rd, _, made⟩ := Option.bind_eq_some_iff.mp made
        have transfer {opcode : Opcode} (made : transferWord? parser opcode rd (.memory symbol) = some word) :
            (symbolOffset? parser symbol).isSome = true := by
          obtain ⟨offset, found, _⟩ := Option.map_eq_some_iff.mp made
          exact Option.isSome_iff_exists.mpr ⟨offset, found⟩
        split at made
        · exact transfer made
        · unfold operationWord? at made
          dsimp only at made
          split at made
          · exact transfer made
          · cases made
  | _ :: _ :: _ :: _ => cases made

variable {data : List Declaration} {code : List CodeStatement} {statements : List Statement}

/-- The statements without the section lines. -/
def lines (statements : List Statement) : List Statement :=
  statements.filter (fun statement => match statement with | .openSection _ => false | _ => true)

def forgetSection (parser : Parser) : Parser := { parser with section_ := .None }

theorem perform_forgetSection {statement : Statement} (line : ∀ target, statement ≠ .openSection target) :
    (statement.perform emit parser).map forgetSection = statement.perform emit (forgetSection parser) := by
  cases statement with
  | openSection target => exact absurd rfl (line target)
  | declaration type name literal =>
    simp only [Statement.perform]
    cases dataType? type with
    | none => rfl
    | some dataType =>
      cases immediate? literal with
      | none => rfl
      | some value => cases emit <;> rfl
  | label name => rfl
  | instruction read =>
    have same : read.word? emit (forgetSection parser) = read.word? emit parser := by
      refine word?_congr rfl (fun operand _ => ?_)
      cases operand <;> rfl
    simp only [Statement.perform]
    rw [same, Option.map_map]
    rfl

/-- A pass does not depend on the sections once its statements are read. -/
theorem run_lines (statements : List Statement) (parser : Parser) :
    (statements.foldlM (Statement.perform emit) parser).map forgetSection =
      (lines statements).foldlM (Statement.perform emit) (forgetSection parser) := by
  induction statements generalizing parser with
  | nil => rfl
  | cons statement statements ih =>
    by_cases section_ : ∃ target, statement = .openSection target
    · obtain ⟨target, rfl⟩ := section_
      exact ih { parser with section_ := target }
    · have line : ∀ target, statement ≠ .openSection target := fun target same => section_ ⟨target, same⟩
      have kept : lines (statement :: statements) = statement :: lines statements := by
        cases statement with
        | openSection target => exact absurd rfl (line target)
        | declaration type name literal => rfl
        | label name => rfl
        | instruction read => rfl
      rw [kept, List.foldlM_cons, List.foldlM_cons, ← perform_forgetSection line]
      cases statement.perform emit parser with
      | none => rfl
      | some middle => exact ih middle

theorem pass_lines (statements : List Statement) (parser : Parser) :
    (pass emit parser statements).map forgetSection =
      (lines statements).foldlM (Statement.perform emit) (forgetSection parser) := run_lines statements _

/-- Both passes over the lines alone. -/
theorem translate_lines (statements : List Statement) :
    translate statements =
      ((lines statements).foldlM (Statement.perform false) { lexer := { source := [] } }).bind (fun first =>
        ((lines statements).foldlM (Statement.perform true) { first with codeAddress := 0, code := [] }).map
          (fun second => { code := second.code, data := first.dataImage })) := by
  have firstRun := @pass_lines false statements { lexer := { source := [] } }
  have start : forgetSection { lexer := { source := [] } } = { lexer := { source := [] } } := rfl
  rw [start] at firstRun
  rw [← firstRun]
  cases passed : pass false { lexer := { source := [] } } statements with
  | none =>
    unfold translate
    rw [passed]
    rfl
  | some first =>
    have secondRun := @pass_lines true statements { first with codeAddress := 0, code := [] }
    rw [translate_of_pass passed, Option.map_some, Option.bind_some]
    change _ = ((lines statements).foldlM (Statement.perform true)
      (forgetSection { first with codeAddress := 0, code := [] })).map _
    rw [← secondRun, Option.map_map]
    rfl

theorem lines_map (data : List Declaration) (code : List CodeStatement) :
    lines (dataFirst data code) = data.map Declaration.statement ++ code.map CodeStatement.statement ∧
      lines (codeFirst data code) = code.map CodeStatement.statement ++ data.map Declaration.statement := by
  have dataLines : lines (data.map Declaration.statement) = data.map Declaration.statement :=
    List.filter_eq_self.mpr (by simp [Declaration.statement])
  have codeLines : lines (code.map CodeStatement.statement) = code.map CodeStatement.statement := by
    refine List.filter_eq_self.mpr (fun statement member => ?_)
    obtain ⟨line, _, rfl⟩ := List.mem_map.mp member
    cases line <;> rfl
  constructor
  · change lines (data.map Declaration.statement ++ .openSection .Code :: code.map CodeStatement.statement) = _
    rw [lines, List.filter_append]
    exact congrArg₂ (· ++ ·) dataLines codeLines
  · change lines (code.map CodeStatement.statement ++ .openSection .Data :: data.map Declaration.statement) = _
    rw [lines, List.filter_append]
    exact congrArg₂ (· ++ ·) codeLines dataLines

/-- A declaration and a line of code that names no symbol do not meet. -/
theorem perform_comm (declaration : Declaration) (line : CodeStatement)
    (apart : ∀ read, line = .instruction read → ∀ symbol, .memory symbol ∉ read.operands) (parser : Parser) :
    (declaration.statement.perform emit parser).bind (fun middle => line.statement.perform emit middle) =
      (line.statement.perform emit parser).bind (fun middle => declaration.statement.perform emit middle) := by
  obtain ⟨type, name, literal⟩ := declaration
  cases line with
  | label label =>
    simp only [Declaration.statement, CodeStatement.statement, Statement.perform, Option.bind_some]
    cases dataType? type with
    | none => rfl
    | some dataType =>
      cases immediate? literal with
      | none => rfl
      | some value => cases emit <;> rfl
  | instruction read =>
    have same : ∀ parser' : Parser, parser'.labels = parser.labels →
      read.word? emit parser' = read.word? emit parser := by
      intro parser' labels
      refine word?_congr labels (fun operand member => ?_)
      cases operand with
      | memory symbol => exact absurd member (apart read rfl symbol)
      | register name => rfl
      | number literal => rfl
      | name name => rfl
    simp only [Declaration.statement, CodeStatement.statement, Statement.perform]
    cases dataType? type with
    | none => cases read.word? emit parser <;> rfl
    | some dataType =>
      cases immediate? literal with
      | none => cases read.word? emit parser <;> rfl
      | some value =>
        cases emit with
        | true => cases made : read.word? true parser <;> simp [made, afterWord]
        | false =>
          simp only [Option.bind_eq_bind, Option.bind_some, Option.pure_def, Bool.false_eq_true, if_false]
          refine Eq.trans (congrArg (Option.map _) (same _ ?_)) ?_
          · rfl
          · cases read.word? false parser <;> rfl

/-- Without references to data the order of the sections is immaterial. -/
theorem translate_comm (apart : NamesNoSymbol code) :
    translate (dataFirst data code) = translate (codeFirst data code) := by
  have run (emit : Bool) (parser : Parser) : (lines (dataFirst data code)).foldlM (Statement.perform emit) parser =
      (lines (codeFirst data code)).foldlM (Statement.perform emit) parser := by
    rw [(lines_map data code).1, (lines_map data code).2]
    refine PartialFold.append_comm (fun parser statement statement' member member' => ?_)
    obtain ⟨declaration, _, rfl⟩ := List.mem_map.mp member
    obtain ⟨line, there, rfl⟩ := List.mem_map.mp member'
    refine perform_comm declaration line (fun read same => ?_) parser
    subst same
    exact apart read there
  rw [translate_lines, translate_lines, run]
  refine congrArg (Option.bind _) (funext fun first => ?_)
  rw [run]

variable {name : Text} {line : CodeStatement}

theorem symbolOffset?_isSome :
    (symbolOffset? parser name).isSome = true ↔ name ∈ parser.dataSymbols.map DataSymbol.name := by
  rw [symbolOffset?, Option.isSome_map, List.find?_isSome, List.mem_map]
  simp only [beq_iff_eq]

theorem knowing_symbol : (symbolOffset? (knowing data code) name).isSome = true ↔ name ∈ data.map Declaration.name := by
  rw [symbolOffset?_isSome, knowing, List.map_map]
  rfl

theorem knowing_label : ((knowing data code).labels name).isSome = true ↔ .label name ∈ code := by
  unfold knowing
  dsimp only
  split <;> simp_all

theorem data_run (storable : ∀ declaration ∈ data, declaration.Storable) (emit : Bool) (parser : Parser) :
    ∃ after, (data.map Declaration.statement).foldlM (Statement.perform emit) parser = some after := by
  induction data generalizing parser with
  | nil => exact ⟨parser, rfl⟩
  | cons declaration data ih =>
    obtain ⟨typed, valued⟩ := storable declaration List.mem_cons_self
    obtain ⟨dataType, typed⟩ := Option.isSome_iff_exists.mp typed
    obtain ⟨value, valued⟩ := Option.isSome_iff_exists.mp valued
    obtain ⟨middle, performed⟩ : ∃ middle, declaration.statement.perform emit parser = some middle := by
      simp only [Declaration.statement, Statement.perform, typed, valued]
      exact ⟨_, rfl⟩
    obtain ⟨after, rest⟩ := ih (fun declaration member => storable declaration (List.mem_cons_of_mem _ member)) middle
    exact ⟨after, PartialFold.cons_iff.mpr ⟨middle, performed, rest⟩⟩

/-- A run over a data section leaves its names. -/
theorem names_of_data_run
    (ran : (data.map Declaration.statement).foldlM (Statement.perform false) parser = some after) :
    (∀ declaration ∈ data, declaration.Storable) ∧ after.labels = parser.labels ∧
      after.dataSymbols.map DataSymbol.name = parser.dataSymbols.map DataSymbol.name ++ data.map Declaration.name := by
  induction data generalizing parser with
  | nil =>
    cases ran
    exact ⟨fun _ member => absurd member List.not_mem_nil, rfl, (List.append_nil _).symm⟩
  | cons declaration data ih =>
    obtain ⟨middle, performed, rest⟩ := PartialFold.cons_iff.mp ran
    obtain ⟨storable, labels, names⟩ := ih rest
    obtain ⟨dataType, typed, performed⟩ := Option.bind_eq_some_iff.mp performed
    obtain ⟨value, valued, performed⟩ := Option.bind_eq_some_iff.mp performed
    cases performed
    refine ⟨?_, labels, ?_⟩
    · intro other member
      rcases List.mem_cons.mp member with rfl | member
      · exact ⟨Option.isSome_iff_exists.mpr ⟨_, typed⟩, Option.isSome_iff_exists.mpr ⟨_, valued⟩⟩
      · exact storable other member
    · rw [names]
      simp

theorem symbols_of_line (performs : line.statement.perform emit parser = some after) :
    after.dataSymbols = parser.dataSymbols := by
  cases line with
  | label name =>
    cases performs
    rfl
  | instruction read =>
    obtain ⟨word, _, rfl⟩ := Option.map_eq_some_iff.mp performs
    rfl

theorem symbols_of_code_run
    (ran : (code.map CodeStatement.statement).foldlM (Statement.perform emit) parser = some after) :
    after.dataSymbols = parser.dataSymbols := by
  refine PartialFold.relates (R := fun before after => after.dataSymbols = before.dataSymbols) ?_ ?_ ?_ ran
  · intro _
    rfl
  · intro _ _ _ first second
    exact second.trans first
  intro before statement after member performs
  obtain ⟨line, _, rfl⟩ := List.mem_map.mp member
  exact symbols_of_line performs

theorem KnowsMore.after_line (more : KnowsMore emit parser emit' parser')
    (performs : line.statement.perform emit' parser' = some after) : KnowsMore emit parser emit' after := by
  refine ⟨more.asks, ?_, ?_⟩
  · intro asked name known
    exact label_isSome_of_performs performs (.inr (more.labels asked name known))
  · intro name known
    have there := more.symbols name known
    unfold symbolOffset? at there ⊢
    rw [symbols_of_line performs]
    exact there

/-- Instructions that have words have them from any parser that knows more. -/
theorem code_run (made : ∀ read, .instruction read ∈ code → (read.word? emit parser).isSome = true)
    (more : KnowsMore emit parser emit' parser') :
    ∃ after, (code.map CodeStatement.statement).foldlM (Statement.perform emit') parser' = some after := by
  induction code generalizing parser' with
  | nil => exact ⟨parser', rfl⟩
  | cons line code ih =>
    obtain ⟨middle, performed⟩ : ∃ middle, line.statement.perform emit' parser' = some middle := by
      cases line with
      | label name => exact ⟨_, rfl⟩
      | instruction read =>
        obtain ⟨word, word?⟩ := Option.isSome_iff_exists.mp (more.word_isSome (made read List.mem_cons_self))
        exact ⟨_, Option.map_eq_some_iff.mpr ⟨word, word?, rfl⟩⟩
    obtain ⟨after, rest⟩ := ih (fun read member => made read (List.mem_cons_of_mem _ member))
      (more.after_line performed)
    exact ⟨after, PartialFold.cons_iff.mpr ⟨middle, performed, rest⟩⟩

theorem labels_of_data_run
    (ran : (data.map Declaration.statement).foldlM (Statement.perform emit) parser = some after) :
    after.labels name = parser.labels name := by
  refine labels_of_run ran (fun member => ?_)
  obtain ⟨declaration, _, same⟩ := List.mem_map.mp member
  cases same

/-- A label that is known after a code section is one of its own, or was known. -/
theorem label_of_code_run (ran : (code.map CodeStatement.statement).foldlM (Statement.perform emit) parser = some after)
    (known : (after.labels name).isSome = true) : .label name ∈ code ∨ (parser.labels name).isSome = true := by
  by_cases defined : .label name ∈ code.map CodeStatement.statement
  · obtain ⟨line, there, same⟩ := List.mem_map.mp defined
    cases line with
    | label other =>
      cases same
      exact .inl there
    | instruction other => cases same
  · rw [labels_of_run ran defined] at known
    exact .inr known

/-- The parser that makes the word of an instruction. -/
theorem exists_word (ran : (code.map CodeStatement.statement).foldlM (Statement.perform emit) parser = some after)
    (member : .instruction read ∈ code) :
    ∃ middle, (read.word? emit middle).isSome = true ∧ middle.dataSymbols = parser.dataSymbols ∧
      ∀ name, (middle.labels name).isSome = true → .label name ∈ code ∨ (parser.labels name).isSome = true := by
  obtain ⟨above, below, rfl⟩ := List.append_of_mem member
  rw [List.map_append] at ran
  obtain ⟨middle, earlier, later⟩ := PartialFold.append_iff.mp ran
  obtain ⟨next, performed, _⟩ := PartialFold.cons_iff.mp later
  obtain ⟨word, made, _⟩ := Option.map_eq_some_iff.mp performed
  refine ⟨middle, Option.isSome_iff_exists.mpr ⟨word, made⟩, symbols_of_code_run earlier, fun name known => ?_⟩
  rcases label_of_code_run earlier known with here | earlier
  · exact .inl (List.mem_append_left _ here)
  · exact .inr earlier

/-- The data section first: what its lines need is there when they come. -/
theorem translate_dataFirst_isSome : (translate (dataFirst data code)).isSome = true ↔ WellFormed data code := by
  rw [translate_lines, (lines_map data code).1]
  constructor
  · intro translated
    obtain ⟨program, translated⟩ := Option.isSome_iff_exists.mp translated
    obtain ⟨first, firstRun, translated⟩ := Option.bind_eq_some_iff.mp translated
    obtain ⟨second, secondRun, _⟩ := Option.map_eq_some_iff.mp translated
    obtain ⟨middle, dataRun, codeRun⟩ := PartialFold.append_iff.mp firstRun
    obtain ⟨storable, labels, names⟩ := names_of_data_run dataRun
    obtain ⟨middle', dataRun', codeRun'⟩ := PartialFold.append_iff.mp secondRun
    refine ⟨storable, fun read member => ?_⟩
    obtain ⟨last, made, symbols, known⟩ := exists_word codeRun' member
    refine KnowsMore.word_isSome ⟨fun _ => rfl, fun _ name defined => ?_, fun name declared => ?_⟩ made
    · rcases known name defined with here | earlier
      · exact knowing_label.mpr here
      rw [labels_of_data_run dataRun'] at earlier
      exact knowing_label.mpr ((label_of_code_run codeRun earlier).resolve_right
        (by rw [labels]; exact Bool.false_ne_true))
    · rw [symbolOffset?_isSome, symbols, (data_of_run_true dataRun').1, symbols_of_code_run codeRun, names] at declared
      exact knowing_symbol.mpr declared
  · rintro ⟨storable, made⟩
    obtain ⟨middle, dataRun⟩ := data_run storable false { lexer := { source := [] } }
    obtain ⟨_, labels, names⟩ := names_of_data_run dataRun
    have symbols : ∀ name, (symbolOffset? (knowing data code) name).isSome = true →
      name ∈ middle.dataSymbols.map DataSymbol.name := by
      intro name known
      rw [names]
      exact knowing_symbol.mp known
    have knows : KnowsMore true (knowing data code) false middle :=
      ⟨fun asked => absurd asked (by decide), fun asked => absurd asked (by decide), fun name known =>
        symbolOffset?_isSome.mpr (symbols name known)⟩
    obtain ⟨first, codeRun⟩ := code_run made knows
    obtain ⟨middle', dataRun'⟩ := data_run storable true { first with codeAddress := 0, code := [] }
    have knows' : KnowsMore true (knowing data code) true middle' := ⟨fun _ => rfl, by
        intro _ name known
        have defined : .label name ∈ code.map CodeStatement.statement :=
          List.mem_map.mpr ⟨.label name, knowing_label.mp known, rfl⟩
        have known := label_isSome_of_run codeRun (.inl defined)
        rw [labels_of_data_run dataRun']
        exact known, by
        intro name known
        rw [symbolOffset?_isSome, (data_of_run_true dataRun').1, symbols_of_code_run codeRun]
        exact symbols name known⟩
    obtain ⟨second, codeRun'⟩ := code_run made knows'
    rw [PartialFold.append_iff.mpr ⟨middle, dataRun, codeRun⟩, Option.bind_some,
      PartialFold.append_iff.mpr ⟨middle', dataRun', codeRun'⟩]
    rfl

/-- The code section first: a reference to a data symbol comes before the symbol. -/
theorem translate_codeFirst_eq_none {symbol : Text} (member : .instruction read ∈ code)
    (names : .memory symbol ∈ read.operands) :
    translate (codeFirst data code) = none := by
  rw [translate_lines, (lines_map data code).2]
  refine Option.bind_eq_none_iff.mpr (fun first run => ?_)
  obtain ⟨middle, codeRun, _⟩ := PartialFold.append_iff.mp run
  obtain ⟨last, made, symbols, _⟩ := exists_word codeRun member
  have known := symbol_of_word names made
  rw [symbolOffset?_isSome, symbols] at known
  cases known

variable {source source' : Text}

/-- The order of the two sections is immaterial exactly when no instruction
names a data symbol, or some line is ill formed anyway. -/
theorem section_order_iff (read : Source.read source = some (dataFirst data code))
    (read' : Source.read source' = some (codeFirst data code)) :
    (assemble source).toOption = (assemble source').toOption ↔ NamesNoSymbol code ∨ ¬ WellFormed data code := by
  rw [assemble_toOption, assemble_toOption, read, read', Option.bind_some, Option.bind_some]
  by_cases apart : NamesNoSymbol code
  · exact ⟨fun _ => .inl apart, fun _ => translate_comm apart⟩
  · have rejected : translate (codeFirst data code) = none := by
      unfold NamesNoSymbol at apart
      push Not at apart
      obtain ⟨read, member, symbol, names⟩ := apart
      exact translate_codeFirst_eq_none member names
    rw [rejected, ← translate_dataFirst_isSome, Bool.not_eq_true, Option.isSome_eq_false_iff, Option.isNone_iff_eq_none]
    exact ⟨.inr, fun alternatives => alternatives.resolve_left apart⟩

/-- A counter and a program that leaves it alone. -/
def counterAbove : Text := "DATA:\nBYTE counter 7\nCODE:\nagain: jmp again\n".toList

def counterBelow : Text := "CODE:\nagain: jmp again\nDATA:\nBYTE counter 7\n".toList

theorem section_order_counter : (assemble counterAbove).toOption = (assemble counterBelow).toOption := by
  refine (@section_order_iff [⟨"BYTE".toList, "counter".toList, "7".toList⟩]
    [.label "again".toList, .instruction ⟨"jmp".toList, [.name "again".toList]⟩] _ _ (by decide +kernel)
    (by decide +kernel)).mpr (.inl ?_)
  intro read member symbol names
  have jump : read = ⟨"jmp".toList, [.name "again".toList]⟩ := by simpa using member
  subst jump
  cases List.mem_singleton.mp names

/-- A program that reads the counter. -/
def readsAbove : Text := "DATA:\nWORD counter 7\nCODE:\nload r0, [counter]\n".toList

def readsBelow : Text := "CODE:\nload r0, [counter]\nDATA:\nWORD counter 7\n".toList

theorem section_order_fails_for_reads :
    ¬ ∀ (data : List Declaration) (code : List CodeStatement) (source source' : Text),
        Source.read source = some (dataFirst data code) → Source.read source' = some (codeFirst data code) →
          (assemble source).toOption = (assemble source').toOption := by
  intro immaterial
  have same := immaterial [⟨"WORD".toList, "counter".toList, "7".toList⟩]
    [.instruction ⟨"load".toList, [.register "r0".toList, .memory "counter".toList]⟩] readsAbove readsBelow
    (by decide +kernel) (by decide +kernel)
  have above : (assemble readsAbove).toOption = some ⟨[0x14000000], [7, 0, 0, 0]⟩ := by decide +kernel
  have below : (assemble readsBelow).toOption = none := by decide +kernel
  rw [above, below] at same
  cases same

end Source

end VirtualMachine
