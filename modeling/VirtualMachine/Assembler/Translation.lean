import VirtualMachine.Assembler.ProgramParsing
import VirtualMachine.Library.PartialFold

namespace VirtualMachine

namespace Source

open VirtualMachine.Parser

def Statement.instruction? : Statement → Option Instruction
  | .instruction read => some read
  | _ => none

/-- The name and the type of a data symbol. -/
def Statement.declaration? : Statement → Option (Text × DataType)
  | .declaration type name _ => (dataType? type).map (fun dataType => (name, dataType))
  | _ => none

def instructions (statements : List Statement) : List Instruction := statements.filterMap Statement.instruction?

def declarations (statements : List Statement) : List (Text × DataType) :=
  statements.filterMap Statement.declaration?

def declaredBytes (declarations : List (Text × DataType)) : Nat :=
  (declarations.map (fun declaration => dataTypeSize declaration.2)).sum

variable {emit : Bool} {parser after : Parser} {statement : Statement} {statements : List Statement}

theorem codeAddress_of_performs (performs : statement.perform emit parser = some after) :
    after.codeAddress = parser.codeAddress + BitVec.ofNat 32 (instructions [statement]).length := by
  cases statement with
  | openSection target =>
    cases performs
    exact (BitVec.add_zero _).symm
  | declaration type name literal =>
    obtain ⟨dataType, _, performs⟩ := Option.bind_eq_some_iff.mp performs
    obtain ⟨value, _, performs⟩ := Option.bind_eq_some_iff.mp performs
    cases performs
    cases emit <;> exact (BitVec.add_zero _).symm
  | label name =>
    cases performs
    exact (BitVec.add_zero _).symm
  | instruction read =>
    obtain ⟨word, _, rfl⟩ := Option.map_eq_some_iff.mp performs
    rfl

theorem instructions_append (before later : List Statement) :
    instructions (before ++ later) = instructions before ++ instructions later := List.filterMap_append

/-- The address of the next word counts the instructions. -/
theorem codeAddress_of_run (ran : statements.foldlM (Statement.perform emit) parser = some after) :
    after.codeAddress = parser.codeAddress + BitVec.ofNat 32 (instructions statements).length := by
  induction statements generalizing parser with
  | nil =>
    cases ran
    exact (BitVec.add_zero _).symm
  | cons statement statements ih =>
    obtain ⟨middle, first, rest⟩ := PartialFold.cons_iff.mp ran
    have split : instructions (statement :: statements) = instructions [statement] ++ instructions statements :=
      instructions_append [statement] statements
    rw [ih rest, codeAddress_of_performs first, split, List.length_append, BitVec.ofNat_add, BitVec.add_assoc]

/-- A statement adds its words, and only the second pass has any. -/
theorem code_of_performs (performs : statement.perform true parser = some after) :
    ∃ words, after.code = parser.code ++ words ∧ words.length = (instructions [statement]).length ∧
      ∀ read, statement = .instruction read → ∃ word, read.word? true parser = some word ∧ words = [word] := by
  cases statement with
  | openSection target =>
    cases performs
    refine ⟨[], (List.append_nil _).symm, rfl, ?_⟩
    intro read same
    cases same
  | declaration type name literal =>
    obtain ⟨dataType, _, performs⟩ := Option.bind_eq_some_iff.mp performs
    obtain ⟨value, _, performs⟩ := Option.bind_eq_some_iff.mp performs
    cases performs
    refine ⟨[], (List.append_nil _).symm, rfl, ?_⟩
    intro read same
    cases same
  | label name =>
    cases performs
    refine ⟨[], (List.append_nil _).symm, rfl, ?_⟩
    intro read same
    cases same
  | instruction read =>
    obtain ⟨word, made, rfl⟩ := Option.map_eq_some_iff.mp performs
    refine ⟨[word], rfl, rfl, ?_⟩
    intro other same
    cases same
    exact ⟨word, made, rfl⟩

theorem code_of_run (ran : statements.foldlM (Statement.perform true) parser = some after) :
    ∃ words, after.code = parser.code ++ words ∧ words.length = (instructions statements).length := by
  induction statements generalizing parser with
  | nil =>
    cases ran
    exact ⟨[], (List.append_nil _).symm, rfl⟩
  | cons statement statements ih =>
    obtain ⟨middle, first, rest⟩ := PartialFold.cons_iff.mp ran
    obtain ⟨words, added, count, _⟩ := code_of_performs first
    obtain ⟨later, added', count'⟩ := ih rest
    have split : instructions (statement :: statements) = instructions [statement] ++ instructions statements :=
      instructions_append [statement] statements
    refine ⟨words ++ later, ?_, ?_⟩
    · rw [added', added, List.append_assoc]
    · rw [split, List.length_append, List.length_append, count, count']

/-- The statement that an instruction is, by its number. -/
theorem exists_statement {index : Nat} {read : Instruction} (found : (instructions statements)[index]? = some read) :
    ∃ before later, statements = before ++ .instruction read :: later ∧ (instructions before).length = index := by
  induction statements generalizing index with
  | nil => cases found
  | cons statement statements ih =>
    cases is : statement.instruction? with
    | none =>
      have skipped : instructions (statement :: statements) = instructions statements := List.filterMap_cons_none is
      rw [skipped] at found
      obtain ⟨before, later, rfl, count⟩ := ih found
      refine ⟨statement :: before, later, rfl, ?_⟩
      rw [instructions, List.filterMap_cons_none is]
      exact count
    | some first =>
      have kept : instructions (statement :: statements) = first :: instructions statements :=
        List.filterMap_cons_some is
      rw [kept] at found
      cases index with
      | zero =>
        cases found
        cases statement with
        | instruction read =>
          cases is
          exact ⟨[], statements, rfl, rfl⟩
        | openSection _ => cases is
        | declaration _ _ _ => cases is
        | label _ => cases is
      | succ index =>
        obtain ⟨before, later, rfl, count⟩ := ih found
        refine ⟨statement :: before, later, rfl, ?_⟩
        rw [instructions, List.filterMap_cons_some is, List.length_cons]
        exact congrArg Nat.succ count

/-- The word of an instruction stands behind those of the instructions above it,
and is made from what the parser knew when it came to it. -/
theorem word_of_split {before later : List Statement} {read : Instruction}
    (ran : (before ++ .instruction read :: later).foldlM (Statement.perform true) parser = some after) :
    ∃ middle word, before.foldlM (Statement.perform true) parser = some middle ∧ read.word? true middle = some word ∧
      after.code[parser.code.length + (instructions before).length]? = some word := by
  obtain ⟨middle, ran, rest⟩ := PartialFold.append_iff.mp ran
  obtain ⟨next, performs, rest⟩ := PartialFold.cons_iff.mp rest
  obtain ⟨earlier, code, length⟩ := code_of_run ran
  obtain ⟨words, code', _, one⟩ := code_of_performs performs
  obtain ⟨word, made, rfl⟩ := one read rfl
  obtain ⟨others, code'', _⟩ := code_of_run rest
  refine ⟨middle, word, ran, made, ?_⟩
  have place : parser.code.length + (instructions before).length = (parser.code ++ earlier).length := by
    rw [List.length_append, length]
  rw [code'', code', code, place, List.append_assoc, List.getElem?_append_right le_rfl, Nat.sub_self]
  rfl

/-- Each instruction has its word where its number says. -/
theorem word_of_run (ran : statements.foldlM (Statement.perform true) parser = some after) {index : Nat}
    {read : Instruction} (found : (instructions statements)[index]? = some read) :
    ∃ before later middle word, statements = before ++ .instruction read :: later ∧
      (instructions before).length = index ∧ before.foldlM (Statement.perform true) parser = some middle ∧
      read.word? true middle = some word ∧ after.code[parser.code.length + index]? = some word := by
  obtain ⟨before, later, rfl, rfl⟩ := exists_statement found
  obtain ⟨middle, word, passed, made, placed⟩ := word_of_split ran
  exact ⟨before, later, middle, word, rfl, rfl, passed, made, placed⟩

variable {name : Text}

theorem labels_of_performs (performs : statement.perform emit parser = some after) (other : statement ≠ .label name) :
    after.labels name = parser.labels name := by
  cases statement with
  | openSection target =>
    cases performs
    rfl
  | declaration type name literal =>
    obtain ⟨dataType, _, performs⟩ := Option.bind_eq_some_iff.mp performs
    obtain ⟨value, _, performs⟩ := Option.bind_eq_some_iff.mp performs
    cases performs
    cases emit <;> rfl
  | label defined =>
    cases performs
    have different : name ≠ defined := by
      rintro rfl
      exact other rfl
    exact Function.update_of_ne different _ _
  | instruction read =>
    obtain ⟨word, _, rfl⟩ := Option.map_eq_some_iff.mp performs
    rfl

theorem labels_of_run (ran : statements.foldlM (Statement.perform emit) parser = some after)
    (others : .label name ∉ statements) : after.labels name = parser.labels name := by
  refine PartialFold.relates (R := fun before after => after.labels name = before.labels name) ?_ ?_ ?_ ran
  · intro _
    rfl
  · intro _ _ _ first second
    exact second.trans first
  intro before statement after member performs
  refine labels_of_performs performs ?_
  rintro rfl
  exact others member

/-- A label stands for the number of the instruction below it. -/
theorem label_of_run {before later : List Statement}
    (ran : (before ++ .label name :: later).foldlM (Statement.perform emit) parser = some after)
    (once : .label name ∉ later) :
    after.labels name = some (parser.codeAddress + BitVec.ofNat 32 (instructions before).length) := by
  obtain ⟨middle, ran, rest⟩ := PartialFold.append_iff.mp ran
  obtain ⟨next, performs, rest⟩ := PartialFold.cons_iff.mp rest
  cases performs
  rw [labels_of_run rest once, ← codeAddress_of_run ran]
  exact Function.update_self _ _ _

theorem label_isSome_of_performs (performs : statement.perform emit parser = some after)
    (defined : statement = .label name ∨ (parser.labels name).isSome = true) : (after.labels name).isSome = true := by
  by_cases label : statement = .label name
  · subst label
    cases performs
    exact congrArg Option.isSome (Function.update_self name (some parser.codeAddress) parser.labels)
  · rw [labels_of_performs performs label]
    exact defined.resolve_left label

theorem label_isSome_of_run (ran : statements.foldlM (Statement.perform emit) parser = some after)
    (defined : .label name ∈ statements ∨ (parser.labels name).isSome = true) : (after.labels name).isSome = true := by
  induction statements generalizing parser with
  | nil =>
    cases ran
    exact defined.resolve_left (List.not_mem_nil)
  | cons statement statements ih =>
    obtain ⟨middle, first, rest⟩ := PartialFold.cons_iff.mp ran
    refine ih rest ?_
    rcases defined with member | known
    · rcases List.mem_cons.mp member with here | later
      · exact .inr (label_isSome_of_performs first (.inl here.symm))
      · exact .inl later
    · exact .inr (label_isSome_of_performs first (.inr known))

/-- What of a data symbol its uses depend on. -/
def place (symbol : DataSymbol) : Text × DataType × Address := (symbol.name, symbol.type, symbol.offset)

/-- The places of the symbols that are declared one after the other. -/
def layout : Address → List (Text × DataType) → List (Text × DataType × Address)
  | _, [] => []
  | offset, (name, dataType) :: declarations =>
    (name, dataType, offset) :: layout (offset + BitVec.ofNat 32 (dataTypeSize dataType)) declarations

theorem declaredBytes_cons (declaration : Text × DataType) (declarations : List (Text × DataType)) :
    declaredBytes (declaration :: declarations) = dataTypeSize declaration.2 + declaredBytes declarations :=
  List.sum_cons

theorem layout_getElem? (offset : Address) (declarations : List (Text × DataType)) (index : Nat) :
    (layout offset declarations)[index]? =
      declarations[index]?.map (fun declaration =>
        (declaration.1, declaration.2, offset + BitVec.ofNat 32 (declaredBytes (declarations.take index)))) := by
  induction declarations generalizing offset index with
  | nil => rfl
  | cons declaration declarations ih =>
    cases index with
    | zero =>
      exact congrArg some (congrArg (fun place => (declaration.1, declaration.2, place)) (BitVec.add_zero _).symm)
    | succ index =>
      rw [layout, List.getElem?_cons_succ, List.getElem?_cons_succ, ih, List.take_succ_cons, declaredBytes_cons,
        BitVec.ofNat_add, BitVec.add_assoc]

/-- A name stands for the first declaration of it. -/
theorem layout_find? (offset : Address) (declarations : List (Text × DataType)) (name : Text) :
    ((layout offset declarations).find? (fun place => place.1 == name)).map (fun place => place.2.2) =
      if name ∈ declarations.map Prod.fst then
        some (offset + BitVec.ofNat 32
          (declaredBytes (declarations.takeWhile (fun declaration => declaration.1 != name))))
      else none := by
  induction declarations generalizing offset with
  | nil => rfl
  | cons declaration declarations ih =>
    obtain ⟨first, dataType⟩ := declaration
    rw [layout]
    by_cases same : first = name
    · subst same
      rw [if_pos (by simp), List.takeWhile_cons_of_neg (by simp)]
      simp only [List.find?_cons, beq_self_eq_true]
      exact congrArg some (BitVec.add_zero _).symm
    · have different : (first == name) = false := beq_eq_false_iff_ne.mpr same
      simp only [List.find?_cons, different]
      rw [ih, List.takeWhile_cons_of_pos (by simpa using same), declaredBytes_cons, BitVec.ofNat_add, BitVec.add_assoc]
      simp only [List.map_cons, List.mem_cons, Ne.symm same, false_or]

theorem symbolOffset?_eq (parser : Parser) (name : Text) :
    symbolOffset? parser name =
      ((parser.dataSymbols.map place).find? (fun place => place.1 == name)).map (fun place => place.2.2) := by
  rw [List.find?_map, Option.map_map]
  rfl

theorem data_of_performs_true (performs : statement.perform true parser = some after) :
    after.dataSymbols = parser.dataSymbols ∧ after.dataOffset = parser.dataOffset := by
  cases statement with
  | openSection target =>
    cases performs
    exact ⟨rfl, rfl⟩
  | declaration type name literal =>
    obtain ⟨dataType, _, performs⟩ := Option.bind_eq_some_iff.mp performs
    obtain ⟨value, _, performs⟩ := Option.bind_eq_some_iff.mp performs
    cases performs
    exact ⟨rfl, rfl⟩
  | label name =>
    cases performs
    exact ⟨rfl, rfl⟩
  | instruction read =>
    obtain ⟨word, _, rfl⟩ := Option.map_eq_some_iff.mp performs
    exact ⟨rfl, rfl⟩

theorem data_of_run_true (ran : statements.foldlM (Statement.perform true) parser = some after) :
    after.dataSymbols = parser.dataSymbols ∧ after.dataOffset = parser.dataOffset := by
  refine PartialFold.relates
    (R := fun before after => after.dataSymbols = before.dataSymbols ∧
      after.dataOffset = before.dataOffset) ?_ ?_ ?_ ran
  · intro _
    exact ⟨rfl, rfl⟩
  · intro _ _ _ first second
    exact ⟨second.1.trans first.1, second.2.trans first.2⟩
  intro before statement after _ performs
  exact data_of_performs_true performs

theorem data_of_performs_false (performs : statement.perform false parser = some after) :
    after.dataSymbols.map place = parser.dataSymbols.map place ++ layout parser.dataOffset (declarations [statement]) ∧
      after.dataOffset = parser.dataOffset + BitVec.ofNat 32 (declaredBytes (declarations [statement])) := by
  cases statement with
  | openSection target =>
    cases performs
    exact ⟨(List.append_nil _).symm, (BitVec.add_zero _).symm⟩
  | declaration type name literal =>
    obtain ⟨dataType, known, performs⟩ := Option.bind_eq_some_iff.mp performs
    obtain ⟨value, _, performs⟩ := Option.bind_eq_some_iff.mp performs
    cases performs
    have declared : declarations [.declaration type name literal] = [(name, dataType)] := by
      rw [declarations, List.filterMap_cons_some (by rw [Statement.declaration?, known]; rfl)]
      rfl
    rw [declared]
    exact ⟨List.map_append, rfl⟩
  | label name =>
    cases performs
    exact ⟨(List.append_nil _).symm, (BitVec.add_zero _).symm⟩
  | instruction read =>
    obtain ⟨word, _, rfl⟩ := Option.map_eq_some_iff.mp performs
    exact ⟨(List.append_nil _).symm, (BitVec.add_zero _).symm⟩

theorem layout_append (offset : Address) (first second : List (Text × DataType)) :
    layout offset (first ++ second) = layout offset first ++
      layout (offset + BitVec.ofNat 32 (declaredBytes first)) second := by
  induction first generalizing offset with
  | nil => exact congrArg (fun place => layout place second) (BitVec.add_zero _).symm
  | cons declaration first ih =>
    rw [List.cons_append, layout, layout, ih, declaredBytes_cons, BitVec.ofNat_add, BitVec.add_assoc, List.cons_append]

theorem declaredBytes_append (first second : List (Text × DataType)) :
    declaredBytes (first ++ second) = declaredBytes first + declaredBytes second := by
  rw [declaredBytes, List.map_append, List.sum_append]
  rfl

/-- The first pass lays the symbols out one after the other. -/
theorem data_of_run_false (ran : statements.foldlM (Statement.perform false) parser = some after) :
    after.dataSymbols.map place = parser.dataSymbols.map place ++ layout parser.dataOffset (declarations statements) ∧
      after.dataOffset = parser.dataOffset + BitVec.ofNat 32 (declaredBytes (declarations statements)) := by
  induction statements generalizing parser with
  | nil =>
    cases ran
    exact ⟨(List.append_nil _).symm, (BitVec.add_zero _).symm⟩
  | cons statement statements ih =>
    obtain ⟨middle, first, rest⟩ := PartialFold.cons_iff.mp ran
    obtain ⟨symbols, offset⟩ := data_of_performs_false first
    obtain ⟨symbols', offset'⟩ := ih rest
    have split : declarations (statement :: statements) = declarations [statement] ++ declarations statements := by
      rw [declarations, declarations, declarations, ← List.filterMap_append]
      rfl
    rw [split, layout_append, declaredBytes_append, symbols', symbols, offset', offset, List.append_assoc,
      BitVec.ofNat_add, BitVec.add_assoc]
    exact ⟨rfl, rfl⟩

theorem storeBytes_length (data : List Byte) (offset count : Nat) (byte : Nat → Byte) :
    (storeBytes data offset count byte).length = data.length := by
  unfold storeBytes
  induction List.range count generalizing data with
  | nil => rfl
  | cons i others ih => rw [List.foldl_cons, ih, List.length_set]

theorem storeSymbol_length (data : List Byte) (symbol : DataSymbol) :
    (storeSymbol data symbol).length = data.length := by
  unfold storeSymbol
  split <;> exact storeBytes_length _ _ _ _

theorem dataImage_length (parser : Parser) : parser.dataImage.length = parser.dataOffset.toNat := by
  have kept : ∀ (symbols : List DataSymbol) (data : List Byte),
    (symbols.foldl storeSymbol data).length = data.length := by
    intro symbols
    induction symbols with
    | nil =>
      intro data
      rfl
    | cons symbol symbols ih =>
      intro data
      rw [List.foldl_cons, ih, storeSymbol_length]
  unfold dataImage
  rw [kept, List.length_replicate]

/-- What the two passes make of an accepted source. -/
structure Assembled (source : Text) (program : AssembledProgram) (statements : List Statement) (first second : Parser) :
    Prop where
  read : Source.read source = some statements
  firstPass : pass false { lexer := { source := [] } } statements = some first
  secondPass : pass true { first with codeAddress := 0, code := [] } statements = some second
  code : program.code = second.code
  data : program.data = first.dataImage

theorem accepted_of_toOption {source : Text} {program : AssembledProgram}
    (ran : (assemble source).toOption = some program) :
    assemble source = .ok program := by
  cases assembled : assemble source with
  | error e =>
    rw [assembled] at ran
    cases ran
  | ok other =>
    rw [assembled] at ran
    cases ran
    rfl

theorem exists_assembled {source : Text} {program : AssembledProgram} (accepted : assemble source = .ok program) :
    ∃ statements first second, Assembled source program statements first second := by
  have translated := assemble_toOption source
  rw [accepted] at translated
  obtain ⟨statements, read, translated⟩ := Option.bind_eq_some_iff.mp translated.symm
  obtain ⟨first, firstPass, translated⟩ := Option.bind_eq_some_iff.mp translated
  obtain ⟨second, secondPass, same⟩ := Option.bind_eq_some_iff.mp translated
  cases same
  exact ⟨statements, first, second, read, firstPass, secondPass, rfl, rfl⟩

theorem exists_assembled_of_read {source : Text} {program : AssembledProgram} (accepted : assemble source = .ok program)
    (read : Source.read source = some statements) :
    ∃ first second, Assembled source program statements first second := by
  obtain ⟨statements', first, second, assembled⟩ := exists_assembled accepted
  obtain rfl : statements = statements' := Option.some.inj (read.symm.trans assembled.read)
  exact ⟨first, second, assembled⟩

/-- The tokens of an accepted source are its statements. -/
theorem Assembled.exists_start {source : Text} {program : AssembledProgram} {first second : Parser}
    (assembled : Assembled source program statements first second) :
    ∃ tokens, Lexer.At true { source := source } tokens ∧
      readStatements tokens.length .None tokens = some statements := by
  obtain ⟨clean, tokens, start, read⟩ := Lexer.exists_at source
  have spelled : Source.read source = if clean then readStatements tokens.length .None tokens else none := by
    unfold Source.read
    rw [read]
    cases clean <;> rfl
  rw [assembled.read] at spelled
  cases clean with
  | false => cases spelled
  | true => exact ⟨tokens, start, spelled.symm⟩

/-- The members of the parser after its first pass are those of the pass over
the statements. -/
theorem Assembled.firstPass_run {source : Text} {program : AssembledProgram} {first second : Parser}
    (assembled : Assembled source program statements first second) :
    ∃ parser, Parser.firstPass { lexer := { source := source } } = .ok () parser ∧ parser.members = first ∧
      parser.lexer.source = source := by
  obtain ⟨tokens, start, read⟩ := assembled.exists_start
  have represents : Represents source true { lexer := { source := source } } ({ lexer := { source := [] } }, tokens) :=
    ⟨start, rfl, rfl⟩
  have meets : Meets source true (Parser.firstPass { lexer := { source := source } }) _ := parseProgram_meets represents
  rw [passSpec_eq, if_pos rfl, read, Option.bind_some, assembled.firstPass, Option.map_some] at meets
  obtain ⟨parser, ran, there⟩ := meets.exists_ok (by decide)
  exact ⟨parser, ran, there.members, there.source⟩

/-- What `firstPass` leaves in `dataSymbols_`. -/
def dataSymbols (source : Text) : List DataSymbol :=
  match firstPass { lexer := { source := source } } with
  | .ok _ parser => parser.dataSymbols
  | .error _ parser => parser.dataSymbols

/-- What `firstPass` leaves in `labels_`. -/
def labelTable (source : Text) : Text → Option Address :=
  match firstPass { lexer := { source := source } } with
  | .ok _ parser => parser.labels
  | .error _ parser => parser.labels

/-- The symbols of the pass over the statements are those of the parser. -/
theorem Assembled.dataSymbols_eq {source : Text} {program : AssembledProgram} {first second : Parser}
    (assembled : Assembled source program statements first second) :
    dataSymbols source = first.dataSymbols := by
  obtain ⟨parser, ran, members, _⟩ := assembled.firstPass_run
  unfold dataSymbols
  rw [ran, ← members]
  rfl

theorem Assembled.labelTable_eq {source : Text} {program : AssembledProgram} {first second : Parser}
    (assembled : Assembled source program statements first second) :
    labelTable source = first.labels := by
  obtain ⟨parser, ran, members, _⟩ := assembled.firstPass_run
  unfold labelTable
  rw [ran, ← members]
  rfl

namespace Assembled

variable {source : Text} {program : AssembledProgram} {first second : Parser}

theorem code_length (assembled : Assembled source program statements first second) :
    program.code.length = (instructions statements).length := by
  obtain ⟨words, code, count⟩ := code_of_run assembled.secondPass
  rw [assembled.code, code, List.length_append, count]
  exact Nat.zero_add _

theorem symbols (assembled : Assembled source program statements first second) :
    first.dataSymbols.map place = layout 0 (declarations statements) := by
  have symbols := (data_of_run_false assembled.firstPass).1
  exact symbols.trans (List.nil_append _)

theorem data_length (assembled : Assembled source program statements first second) :
    program.data.length = declaredBytes (declarations statements) % 2 ^ 32 := by
  have offset : first.dataOffset = 0#32 + BitVec.ofNat 32 (declaredBytes (declarations statements)) :=
    (data_of_run_false assembled.firstPass).2
  rw [assembled.data, dataImage_length, offset, BitVec.zero_add, BitVec.toNat_ofNat]

/-- The word of the instruction below some statements. -/
theorem word_below {before later : List Statement} {read : Instruction}
    (assembled : Assembled source program (before ++ .instruction read :: later) first second) :
    ∃ middle word, pass true { first with codeAddress := 0, code := [] } before = some middle ∧
      read.word? true middle = some word ∧ program.code[(instructions before).length]? = some word := by
  obtain ⟨middle, word, ran, made, placed⟩ := word_of_split assembled.secondPass
  refine ⟨middle, word, ran, made, ?_⟩
  rw [assembled.code, ← placed]
  exact congrArg (fun place => second.code[place]?) (Nat.zero_add _).symm

/-- The word of each instruction, and the parser that made it. -/
theorem word (assembled : Assembled source program statements first second) {index : Nat} {read : Instruction}
    (found : (instructions statements)[index]? = some read) :
    ∃ before later middle word, statements = before ++ .instruction read :: later ∧
      (instructions before).length = index ∧
        pass true { first with codeAddress := 0, code := [] } before = some middle ∧
      read.word? true middle = some word ∧ program.code[index]? = some word := by
  obtain ⟨before, later, middle, word, split, count, ran, made, at_⟩ := word_of_run assembled.secondPass found
  refine ⟨before, later, middle, word, split, count, ran, made, ?_⟩
  rw [assembled.code, ← at_]
  exact congrArg (fun place => second.code[place]?) (Nat.zero_add index).symm

end Assembled

end Source

end VirtualMachine
