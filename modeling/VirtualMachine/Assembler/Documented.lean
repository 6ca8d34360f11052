import VirtualMachine.Assembler.Rendering
import VirtualMachine.Assembler.Translation
import VirtualMachine.Isa.Encoding
import Mathlib.Data.List.Forall2

namespace VirtualMachine

namespace Source

open VirtualMachine.Parser

def registerNames : List Text :=
  ["r0", "r1", "r2", "r3", "r4", "r5", "r6", "r7", "r8", "r9", "r10", "r11", "r12", "r13",
    "r14", "r15"].map String.toList

/-- A literal that a 64-bit number holds. -/
def InRange (literal : Text) : Prop :=
  hasDigits literal = true ∧ -2 ^ 63 ≤ literalValue literal ∧ literalValue literal < 2 ^ 63

def operationMnemonics : List Text :=
  ["mov", "add", "sub", "mul", "div", "mod", "and", "or", "xor", "cmp"].map String.toList

def jumpMnemonics : List Text := ["jmp", "je", "jne", "jg", "jge", "jl", "jle"].map String.toList

def unaryMnemonics : List Text := ["inc", "dec", "not", "pop"].map String.toList

def syscallNames : List Text := ["print", "scan", "exit", "yield", "load"].map String.toList

/-- The instructions of docs/ISA.md that the grammar has. -/
inductive DocumentedInstruction : Instruction → Prop
  | register {mnemonic rd rs : Text} (known : mnemonic ∈ operationMnemonics) (target : rd ∈ registerNames)
      (source : rs ∈ registerNames) : DocumentedInstruction ⟨mnemonic, [.register rd, .register rs]⟩
  | immediate {mnemonic rd literal : Text} (known : mnemonic ∈ operationMnemonics) (target : rd ∈ registerNames)
      (range : InRange literal) : DocumentedInstruction ⟨mnemonic, [.register rd, .number literal]⟩
  | transfer {mnemonic rd symbol : Text} (known : mnemonic ∈ ["mov", "load", "store"].map String.toList)
      (target : rd ∈ registerNames) : DocumentedInstruction ⟨mnemonic, [.register rd, .memory symbol]⟩
  | unary {mnemonic rd : Text} (known : mnemonic ∈ unaryMnemonics) (target : rd ∈ registerNames) :
      DocumentedInstruction ⟨mnemonic, [.register rd]⟩
  | jump {mnemonic label : Text} (known : mnemonic ∈ jumpMnemonics) : DocumentedInstruction ⟨mnemonic, [.name label]⟩
  | pushRegister {rd : Text} (target : rd ∈ registerNames) : DocumentedInstruction ⟨"push".toList, [.register rd]⟩
  | pushImmediate {literal : Text} (range : InRange literal) : DocumentedInstruction ⟨"push".toList, [.number literal]⟩
  | pushLabel {label : Text} : DocumentedInstruction ⟨"push".toList, [.name label]⟩
  | ret : DocumentedInstruction ⟨"ret".toList, []⟩
  | halt : DocumentedInstruction ⟨"halt".toList, []⟩
  | call {syscall symbol : Text} (known : syscall ∈ syscallNames) :
      DocumentedInstruction ⟨"call".toList, [.name syscall, .memory symbol]⟩

def Instruction.labels (instruction : Instruction) : List Text :=
  if instruction.mnemonic = "call".toList then []
  else instruction.operands.filterMap (fun operand => match operand with | .name label => some label | _ => none)

def Instruction.symbols (instruction : Instruction) : List Text :=
  instruction.operands.filterMap (fun operand => match operand with | .memory symbol => some symbol | _ => none)

/-- An item that docs/ISA.md allows in a section, where `labels` are all the
labels of the program and `declared` the symbols above it. -/
def Item.Documented (labels declared : List Text) (section_ : SourceSection) : Item → Prop
  | .statement (.openSection target) => target ≠ .None
  | .statement (.declaration type _ literal) =>
    section_ = .Data ∧ type ∈ ["BYTE", "DBYTE", "WORD", "QWORD"].map String.toList ∧ InRange literal
  | .statement (.label name) => section_ = .Code ∧ isReserved name = false
  | .statement (.instruction read) =>
    section_ = .Code ∧ DocumentedInstruction read ∧ (∀ label ∈ read.labels, label ∈ labels) ∧
      ∀ symbol ∈ read.symbols, symbol ∈ declared
  | .bareCall syscall => section_ = .Code ∧ syscall ∈ syscallNames

def Item.declaredAfter (declared : List Text) : Item → List Text
  | .statement (.declaration _ name _) => declared ++ [name]
  | _ => declared

def DocumentedFrom (labels : List Text) : List Text → SourceSection → List Item → Prop
  | _, _, [] => True
  | declared, section_, item :: items =>
    item.Documented labels declared section_ ∧
      DocumentedFrom labels (item.declaredAfter declared) (item.sectionAfter section_) items

def Item.label? : Item → Option Text
  | .statement (.label name) => some name
  | _ => none

/-- A program of docs/ISA.md. -/
def Documented (document : List Line) : Prop :=
  DocumentedFrom ((items document).filterMap Item.label?) [] .None (items document)

/-- The instruction statements; a system call without an argument is one. -/
def Item.instruction? : Item → Option Instruction
  | .statement read => read.instruction?
  | .bareCall syscall => some ⟨"call".toList, [.name syscall]⟩

def documentInstructions (document : List Line) : List Instruction := (items document).filterMap Item.instruction?

/-- The opcode of an instruction; `mov` from memory is a load. -/
def Instruction.opcode? (instruction : Instruction) : Option Opcode :=
  match instruction.operands with
  | [.register _, .memory _] =>
    if instruction.mnemonic = "mov".toList then some .LOAD else Source.opcode? instruction.mnemonic
  | _ => if instruction.mnemonic = "call".toList then some .CALL else Source.opcode? instruction.mnemonic

section Instructions

variable {emit : Bool} {parser : Parser} {instruction : Instruction}

/-- A documented register name is one of the machine. -/
theorem register?_documented {name : Text} (known : name ∈ registerNames) : (register? name).isSome = true := by
  have all : registerNames.all (fun name => (register? name).isSome) = true := by decide
  exact List.all_eq_true.mp all name known

/-- A literal that fits 64 bits is converted, whatever is left of it in the word. -/
theorem immediate?_inRange {literal : Text} (range : InRange literal) : (immediate? literal).isSome = true := by
  obtain ⟨digits, low, high⟩ := range
  have parsed : stol literal = .ok (literalValue literal) := by
    unfold stol stringToInteger
    rw [if_neg (by rw [digits]; decide), if_neg (by omega)]
  rw [immediate?, parsed]
  rfl

/-- The documented mnemonics of two operands are what the parser falls to in
the end. -/
theorem operation_documented {mnemonic : Text} (known : mnemonic ∈ operationMnemonics) :
    mnemonic ≠ "call".toList ∧ isReserved mnemonic = false ∧ arity mnemonic = 2 ∧
      ∃ opcode, Source.opcode? mnemonic = some opcode ∧ opcode ≠ .LOAD ∧ opcode ≠ .STORE := by
  have all : operationMnemonics.all (fun mnemonic =>
      mnemonic != "call".toList && (isReserved mnemonic == false && (arity mnemonic == 2 &&
        (Source.opcode? mnemonic).any (fun opcode => opcode != .LOAD && opcode != .STORE)))) = true := by decide
  have this := List.all_eq_true.mp all mnemonic known
  simpa only [Bool.and_eq_true, bne_iff_ne, beq_iff_eq, Option.any_eq_true] using this

/-- The mnemonics that take a register and an offset. -/
theorem transfer_documented {mnemonic : Text} (known : mnemonic ∈ ["mov", "load", "store"].map String.toList) :
    mnemonic ≠ "call".toList ∧ isReserved mnemonic = false ∧ arity mnemonic = 2 ∧
      ∃ opcode, Source.opcode? mnemonic = some opcode ∧ (opcode = .MOV ∨ opcode = .LOAD ∨ opcode = .STORE) := by
  have all : (["mov", "load", "store"].map String.toList).all (fun mnemonic =>
      mnemonic != "call".toList && (isReserved mnemonic == false && (arity mnemonic == 2 &&
        (Source.opcode? mnemonic).any (fun opcode =>
          opcode == .MOV || (opcode == .LOAD || opcode == .STORE))))) = true := by
    decide
  have this := List.all_eq_true.mp all mnemonic known
  simpa only [Bool.and_eq_true, Bool.or_eq_true, bne_iff_ne, beq_iff_eq, Option.any_eq_true] using this

/-- The mnemonics that take one register. -/
theorem unary_documented {mnemonic : Text} (known : mnemonic ∈ unaryMnemonics) :
    isReserved mnemonic = false ∧ arity mnemonic = 1 ∧ mnemonic ≠ "push".toList ∧
      (mnemonic = "pop".toList ∨
        ∃ opcode, Source.opcode? mnemonic = some opcode ∧ isJump opcode = false ∧ isUnary opcode = true) := by
  have all : unaryMnemonics.all (fun mnemonic =>
      isReserved mnemonic == false && (arity mnemonic == 1 && (mnemonic != "push".toList &&
        (mnemonic == "pop".toList ||
          (Source.opcode? mnemonic).any (fun opcode => isJump opcode == false && isUnary opcode))))) = true := by decide
  have this := List.all_eq_true.mp all mnemonic known
  simpa only [Bool.and_eq_true, Bool.or_eq_true, bne_iff_ne, beq_iff_eq, Option.any_eq_true] using this

/-- The mnemonics that take a label. -/
theorem jump_documented {mnemonic : Text} (known : mnemonic ∈ jumpMnemonics) :
    mnemonic ≠ "call".toList ∧ isReserved mnemonic = false ∧ arity mnemonic = 1 ∧ mnemonic ≠ "push".toList ∧
      mnemonic ≠ "pop".toList ∧ ∃ opcode, Source.opcode? mnemonic = some opcode ∧ isJump opcode = true := by
  have all : jumpMnemonics.all (fun mnemonic =>
      mnemonic != "call".toList &&
        (isReserved mnemonic == false && (arity mnemonic == 1 && (mnemonic != "push".toList &&
        (mnemonic != "pop".toList && (Source.opcode? mnemonic).any isJump))))) = true := by decide
  have this := List.all_eq_true.mp all mnemonic known
  simpa only [Bool.and_eq_true, bne_iff_ne, beq_iff_eq, Option.any_eq_true] using this

theorem syscall_documented {name : Text} (known : name ∈ syscallNames) : (syscall? emit name).isSome = true := by
  have all : syscallNames.all (fun name => (syscall? true name).isSome && (syscall? false name).isSome) = true := by
    decide
  have this := Bool.and_eq_true_iff.mp (List.all_eq_true.mp all name known)
  cases emit with
  | false => exact this.2
  | true => exact this.1

/-- A documented instruction has as many operands as the grammar reads for its
mnemonic. -/
theorem fits_documented (documented : DocumentedInstruction instruction) :
    isReserved instruction.mnemonic = false ∧ instruction.operands.length = arity instruction.mnemonic := by
  cases documented with
  | register known _ _ => exact ⟨(operation_documented known).2.1, (operation_documented known).2.2.1.symm⟩
  | immediate known _ _ => exact ⟨(operation_documented known).2.1, (operation_documented known).2.2.1.symm⟩
  | transfer known _ => exact ⟨(transfer_documented known).2.1, (transfer_documented known).2.2.1.symm⟩
  | unary known _ => exact ⟨(unary_documented known).1, (unary_documented known).2.1.symm⟩
  | jump known => exact ⟨(jump_documented known).2.1, (jump_documented known).2.2.1.symm⟩
  | pushRegister _ => exact ⟨rfl, rfl⟩
  | pushImmediate _ => exact ⟨rfl, rfl⟩
  | pushLabel => exact ⟨rfl, rfl⟩
  | ret => exact ⟨rfl, rfl⟩
  | halt => exact ⟨rfl, rfl⟩
  | call _ => exact ⟨rfl, rfl⟩

/-- A label is known in the second pass, and not asked for in the first. -/
theorem target?_defined {label : Text} (defined : emit = true → (parser.labels label).isSome = true) :
    (target? emit parser label).isSome = true := by
  cases emit with
  | false => rfl
  | true => exact defined rfl

/-- A documented instruction has a word, once its labels and symbols are known. -/
theorem word?_documented (documented : DocumentedInstruction instruction)
    (labels : emit = true → ∀ label ∈ instruction.labels, (parser.labels label).isSome = true)
    (symbols : ∀ symbol ∈ instruction.symbols, (symbolOffset? parser symbol).isSome = true) :
    (instruction.word? emit parser).isSome = true := by
  cases documented with
  | @register mnemonic rd rs known target source =>
    obtain ⟨notCall, _, _, opcode, is, notLoad, notStore⟩ := operation_documented known
    obtain ⟨rd', isRd⟩ := Option.isSome_iff_exists.mp (register?_documented target)
    obtain ⟨rs', isRs⟩ := Option.isSome_iff_exists.mp (register?_documented source)
    change (twoOperandsWord? emit parser mnemonic (.register rd) (.register rs)).isSome = true
    rw [twoOperandsWord?, if_neg notCall, is, registerOperand?, isRd]
    simp [notLoad, notStore, operationWord?, isRs]
  | @immediate mnemonic rd literal known target range =>
    obtain ⟨notCall, _, _, opcode, is, notLoad, notStore⟩ := operation_documented known
    obtain ⟨rd', isRd⟩ := Option.isSome_iff_exists.mp (register?_documented target)
    obtain ⟨imm, isImm⟩ := Option.isSome_iff_exists.mp (immediate?_inRange range)
    change (twoOperandsWord? emit parser mnemonic (.register rd) (.number literal)).isSome = true
    rw [twoOperandsWord?, if_neg notCall, is, registerOperand?, isRd]
    simp [notLoad, notStore, operationWord?, isImm]
  | @transfer mnemonic rd symbol known target =>
    obtain ⟨notCall, _, _, opcode, is, which⟩ := transfer_documented known
    obtain ⟨rd', isRd⟩ := Option.isSome_iff_exists.mp (register?_documented target)
    obtain ⟨offset, isOffset⟩ := Option.isSome_iff_exists.mp (symbols symbol List.mem_cons_self)
    change (twoOperandsWord? emit parser mnemonic (.register rd) (.memory symbol)).isSome = true
    rw [twoOperandsWord?, if_neg notCall, is, registerOperand?, isRd]
    rcases which with rfl | rfl | rfl <;> simp [operationWord?, transferWord?, offset?, isOffset]
  | @unary mnemonic rd known target =>
    obtain ⟨_, _, notPush, which⟩ := unary_documented known
    obtain ⟨rd', isRd⟩ := Option.isSome_iff_exists.mp (register?_documented target)
    change (oneOperandWord? emit parser mnemonic (.register rd)).isSome = true
    rw [oneOperandWord?, if_neg notPush]
    rcases which with pop | ⟨opcode, is, notJump, isUnary⟩
    · rw [if_pos pop, unaryWord?, registerOperand?, isRd]
      rfl
    · split
      · rw [unaryWord?, registerOperand?, isRd]
        rfl
      · rw [is]
        simp [notJump, isUnary, unaryWord?, registerOperand?, isRd]
  | @jump mnemonic label known =>
    obtain ⟨notCall, _, _, notPush, notPop, opcode, is, isJump⟩ := jump_documented known
    have defined : emit = true → (parser.labels label).isSome = true := by
      intro second
      refine labels second label ?_
      rw [Instruction.labels, if_neg notCall]
      exact List.mem_cons_self
    obtain ⟨address, isTarget⟩ := Option.isSome_iff_exists.mp (target?_defined defined)
    change (oneOperandWord? emit parser mnemonic (.name label)).isSome = true
    rw [oneOperandWord?, if_neg notPush, if_neg notPop, is]
    simp [isJump, jumpWord?, isTarget]
  | @pushRegister rd target =>
    obtain ⟨rd', isRd⟩ := Option.isSome_iff_exists.mp (register?_documented target)
    change ((register? rd).map (fun rd => encodeRegReg .PUSH rd rd rd)).isSome = true
    rw [isRd]
    rfl
  | @pushImmediate literal range =>
    obtain ⟨imm, isImm⟩ := Option.isSome_iff_exists.mp (immediate?_inRange range)
    change ((immediate? literal).map (encodeRegImm .PUSH 0 0)).isSome = true
    rw [isImm]
    rfl
  | @pushLabel label =>
    have defined : emit = true → (parser.labels label).isSome = true :=
      fun second => labels second label List.mem_cons_self
    obtain ⟨address, isTarget⟩ := Option.isSome_iff_exists.mp (target?_defined defined)
    change ((target? emit parser label).map (fun target => encodeRegImm .PUSH 0 0 (target.setWidth 16))).isSome = true
    rw [isTarget]
    rfl
  | ret => rfl
  | halt => rfl
  | @call syscall symbol known =>
    obtain ⟨offset, isOffset⟩ := Option.isSome_iff_exists.mp (symbols symbol List.mem_cons_self)
    have named : (syscall? emit syscall).isSome = true := syscall_documented known
    obtain ⟨id, isId⟩ := Option.isSome_iff_exists.mp named
    change (callWord? emit parser (.memory symbol) (.name syscall)).isSome = true
    rw [callWord?, offset?, isOffset, isId]
    rfl

/-- The opcode table has sixteen mnemonics and more, so what is said of all of them
is decided on the table. -/
theorem mem_mapping_of_opcode? {mnemonic : Text} {opcode : Opcode} (is : Source.opcode? mnemonic = some opcode) :
    (mnemonic, opcode) ∈ OpcodeTable.mapping := by
  unfold Source.opcode? OpcodeTable.mnemonicToOpcode at is
  cases found : OpcodeTable.mapping.lookup mnemonic with
  | none =>
    rw [found] at is
    cases is
  | some other =>
    rw [found] at is
    cases is
    obtain ⟨before, after, split, _⟩ := List.lookup_eq_some_iff.mp found
    rw [split]
    exact List.mem_append_right _ List.mem_cons_self

/-- `call` is not in the table, and only `mov` is a move. -/
theorem mnemonic_of_opcode? {mnemonic : Text} {opcode : Opcode} (is : Source.opcode? mnemonic = some opcode) :
    mnemonic ≠ "call".toList ∧ (opcode = .MOV ↔ mnemonic = "mov".toList) := by
  have all : OpcodeTable.mapping.all (fun entry =>
      entry.1 != "call".toList && (decide (entry.2 = .MOV) == decide (entry.1 = "mov".toList))) = true := by decide
  have this := Bool.and_eq_true_iff.mp (List.all_eq_true.mp all _ (mem_mapping_of_opcode? is))
  exact ⟨bne_iff_ne.mp this.1, decide_eq_decide.mp (eq_of_beq this.2)⟩

/-- The word that is encoded with an opcode decodes to it. -/
theorem opcode?_of_encode {opcode : Opcode} {rd rs1 rs2 : Byte} {imm : BitVec 16} :
    Opcode.ofByte? (decodeInstruction (encodeInstruction opcode.toByte rd rs1 rs2 imm)).opcode = some opcode := by
  rw [decode_encode_opcode, Opcode.ofByte?_toByte]

variable {word : Word}

theorem opcode_of_bareWord {mnemonic : Text} (made : bareWord? mnemonic = some word) :
    Instruction.opcode? ⟨mnemonic, []⟩ = Opcode.ofByte? (decodeInstruction word).opcode := by
  unfold bareWord? at made
  split at made
  · rename_i halt
    cases made
    rw [halt, opcode?_of_encode]
    rfl
  split at made
  · rename_i ret
    cases made
    rw [ret, opcode?_of_encode]
    rfl
  · cases made

theorem opcode_of_oneOperandWord {mnemonic : Text} {operand : Operand}
    (made : oneOperandWord? emit parser mnemonic operand = some word) :
    Instruction.opcode? ⟨mnemonic, [operand]⟩ = Opcode.ofByte? (decodeInstruction word).opcode := by
  have unfolded : Instruction.opcode? ⟨mnemonic, [operand]⟩ =
      if mnemonic = "call".toList then some .CALL else Source.opcode? mnemonic := by cases operand <;> rfl
  rw [unfolded]
  have unary : ∀ opcode, unaryWord? opcode operand = some word →
      Opcode.ofByte? (decodeInstruction word).opcode = some opcode := by
    intro opcode made
    obtain ⟨rd, _, rfl⟩ := Option.map_eq_some_iff.mp made
    exact opcode?_of_encode
  unfold oneOperandWord? at made
  split at made
  · rename_i push
    have pushed : Opcode.ofByte? (decodeInstruction word).opcode = some .PUSH := by
      cases operand with
      | register _ =>
        obtain ⟨rd, _, rfl⟩ := Option.map_eq_some_iff.mp made
        exact opcode?_of_encode
      | number _ =>
        obtain ⟨imm, _, rfl⟩ := Option.map_eq_some_iff.mp made
        exact opcode?_of_encode
      | name _ =>
        obtain ⟨target, _, rfl⟩ := Option.map_eq_some_iff.mp made
        exact opcode?_of_encode
      | memory _ => cases made
    rw [pushed, push]
    rfl
  split at made
  · rename_i pop
    rw [unary .POP made, pop]
    rfl
  obtain ⟨opcode, is, made⟩ := Option.bind_eq_some_iff.mp made
  rw [if_neg (mnemonic_of_opcode? is).1, is]
  split at made
  · cases operand with
    | name _ =>
      obtain ⟨target, _, rfl⟩ := Option.map_eq_some_iff.mp made
      exact opcode?_of_encode.symm
    | register _ => cases made
    | number _ => cases made
    | memory _ => cases made
  split at made
  · exact (unary opcode made).symm
  · cases made

/-- A memory operand makes a load of a `mov`. -/
def operationOpcode (opcode : Opcode) : Operand → Opcode
  | .memory _ => .LOAD
  | _ => opcode

/-- The word of an operation has the opcode of its mnemonic, but for `mov` from
memory. -/
theorem opcode_of_operationWord {opcode : Opcode} {rd : Byte} {operand : Operand}
    (made : operationWord? true parser opcode rd operand = some word) :
    Opcode.ofByte? (decodeInstruction word).opcode = some (operationOpcode opcode operand) := by
  cases operand with
  | register _ =>
    obtain ⟨rs, _, same⟩ := Option.map_eq_some_iff.mp made
    rw [← same]
    split
    · exact opcode?_of_encode
    · exact opcode?_of_encode
  | number _ =>
    obtain ⟨imm, _, same⟩ := Option.map_eq_some_iff.mp made
    rw [← same]
    change _ = some opcode
    by_cases mov : opcode = .MOV
    · rw [if_pos mov, mov]
      exact opcode?_of_encode
    · rw [if_neg mov]
      split
      · exact opcode?_of_encode
      · exact opcode?_of_encode
  | memory symbol =>
    rw [operationWord?] at made
    by_cases allowed : opcode = .MOV ∨ true = false
    · rw [if_pos allowed] at made
      obtain ⟨offset, _, same⟩ := Option.map_eq_some_iff.mp made
      rw [← same, opcode?_of_encode]
      rfl
    · rw [if_neg allowed] at made
      cases made
  | name _ => cases made

/-- The two operands of a documented instruction never change its opcode otherwise. -/
theorem opcode_of_twoOperandsWord {mnemonic : Text} {first second : Operand}
    (made : twoOperandsWord? true parser mnemonic first second = some word) :
    Instruction.opcode? ⟨mnemonic, [first, second]⟩ = Opcode.ofByte? (decodeInstruction word).opcode := by
  unfold twoOperandsWord? at made
  split at made
  · rename_i call
    cases first with
    | name syscall =>
      obtain ⟨offset, _, made⟩ := Option.bind_eq_some_iff.mp made
      obtain ⟨id, _, made⟩ := Option.bind_eq_some_iff.mp made
      cases made
      rw [call]
      exact opcode?_of_encode.symm
    | register _ => cases made
    | number _ => cases made
    | memory _ => cases made
  · rename_i notCall
    obtain ⟨opcode, is, rest⟩ := Option.bind_eq_some_iff.mp made
    obtain ⟨rd, isRd, chosen⟩ := Option.bind_eq_some_iff.mp rest
    obtain ⟨register, rfl⟩ : ∃ name, first = .register name := by
      cases first with
      | register name => exact ⟨name, rfl⟩
      | number _ => cases isRd
      | name _ => cases isRd
      | memory _ => cases isRd
    have mov := (mnemonic_of_opcode? is).2
    by_cases transfer : opcode = .LOAD ∨ opcode = .STORE
    · rw [if_pos transfer] at chosen
      obtain ⟨offset, _, same⟩ := Option.map_eq_some_iff.mp chosen
      have notMov : mnemonic ≠ "mov".toList := by
        rw [ne_eq, ← mov]
        rcases transfer with rfl | rfl <;> decide
      rw [← same, opcode?_of_encode, ← is]
      cases second <;> simp only [Instruction.opcode?, if_neg notMov, if_neg notCall]
    · rw [if_neg transfer] at chosen
      rw [opcode_of_operationWord chosen]
      cases second with
      | memory symbol =>
        have isMov : opcode = .MOV := by
          rw [operationWord?] at chosen
          by_contra other
          rw [if_neg (by simp [other])] at chosen
          cases chosen
        simp only [Instruction.opcode?, operationOpcode, if_pos (mov.mp isMov)]
      | register _ => simp only [Instruction.opcode?, operationOpcode, if_neg notCall, is]
      | number _ => simp only [Instruction.opcode?, operationOpcode, if_neg notCall, is]
      | name _ => simp only [Instruction.opcode?, operationOpcode, if_neg notCall, is]

/-- The word of an instruction has its opcode. -/
theorem opcode_of_word (made : instruction.word? true parser = some word) :
    instruction.opcode? = Opcode.ofByte? (decodeInstruction word).opcode := by
  obtain ⟨mnemonic, operands⟩ := instruction
  rcases operands with _ | ⟨first, _ | ⟨second, _ | ⟨third, others⟩⟩⟩
  · exact opcode_of_bareWord made
  · exact opcode_of_oneOperandWord made
  · exact opcode_of_twoOperandsWord made
  · cases made

end Instructions

section Passes

variable {emit : Bool} {parser after : Parser} {labels : List Text} {statement : Statement}
  {statements : List Statement}

/-- A symbol that is known stays known when others are declared. -/
theorem symbol_isSome_append {name : Text} {others : List DataSymbol}
    (known : (symbolOffset? parser name).isSome = true) (same : after.dataSymbols = parser.dataSymbols ++ others) :
    (symbolOffset? after name).isSome = true := by
  unfold symbolOffset? at known ⊢
  rw [Option.isSome_map] at known ⊢
  rw [same, List.find?_append, Option.isSome_or, known, Bool.true_or]

theorem symbol_isSome_self {symbol : DataSymbol} {name : Text}
    (same : after.dataSymbols = parser.dataSymbols ++ [symbol]) (named : symbol.name = name) :
    (symbolOffset? after name).isSome = true := by
  unfold symbolOffset?
  rw [Option.isSome_map, same, List.find?_append, Option.isSome_or]
  simp [named]

/-- A declaration is performed in the first pass and skipped in the second. -/
theorem performs_declaration (parser : Parser) (name : Text) {type literal : Text} {dataType : DataType}
    {value : BitVec 16}
    (isType : dataType? type = some dataType) (isValue : immediate? literal = some value) :
    Statement.perform true parser (.declaration type name literal) = some parser ∧
      ∃ after, Statement.perform false parser (.declaration type name literal) = some after ∧
        after.section_ = parser.section_ ∧
        after.dataSymbols = parser.dataSymbols ++ [⟨name, dataType, value.signExtend 64, parser.dataOffset⟩] := by
  constructor
  · rw [Statement.perform, isType, isValue]
    rfl
  · rw [Statement.perform, isType, isValue]
    exact ⟨_, rfl, rfl, rfl⟩

/-- What a pass over documented statements goes by. In the second pass all
labels and symbols are known from the first. -/
structure Ready (emit : Bool) (labels : List Text) (statements : List Statement) (parser : Parser) : Prop where
  documented : ∃ declared, DocumentedFrom labels declared parser.section_ (statements.map Item.statement) ∧
    ∀ symbol ∈ declared, (symbolOffset? parser symbol).isSome = true
  labels : emit = true → ∀ label ∈ labels, (parser.labels label).isSome = true
  symbols : emit = true → ∀ type name literal, .declaration type name literal ∈ statements →
    (symbolOffset? parser name).isSome = true

/-- One documented statement, with what the pass goes by kept. -/
theorem ready_performs (ready : Ready emit labels (statement :: statements) parser) :
    ∃ after, statement.perform emit parser = some after ∧ Ready emit labels statements after := by
  obtain ⟨⟨declared, ⟨here, later⟩, known⟩, defined, symbols⟩ := ready
  have symbols' : emit = true → ∀ type name literal, .declaration type name literal ∈ statements →
      (symbolOffset? parser name).isSome = true :=
    fun second type name literal member => symbols second type name literal (List.mem_cons_of_mem _ member)
  cases statement with
  | openSection target => exact ⟨_, rfl, ⟨declared, later, known⟩, defined, symbols'⟩
  | declaration type name literal =>
    obtain ⟨_, typed, range⟩ := here
    have all : (["BYTE", "DBYTE", "WORD", "QWORD"].map String.toList).all
      (fun type => (dataType? type).isSome) = true := by
      decide
    obtain ⟨dataType, isType⟩ := Option.isSome_iff_exists.mp (List.all_eq_true.mp all type typed)
    obtain ⟨value, isValue⟩ := Option.isSome_iff_exists.mp (immediate?_inRange range)
    obtain ⟨second, after, first, section_, added⟩ := performs_declaration parser name isType isValue
    cases emit with
    | true =>
      refine ⟨parser, second, ⟨declared ++ [name], later, fun symbol member => ?_⟩, defined, symbols'⟩
      rcases List.mem_append.mp member with old | new
      · exact known symbol old
      · obtain rfl := List.mem_singleton.mp new
        exact symbols rfl type symbol literal List.mem_cons_self
    | false =>
      refine ⟨after, first, ⟨declared ++ [name], ?_, fun symbol member => ?_⟩, ?_, ?_⟩
      · rw [section_]
        exact later
      · rcases List.mem_append.mp member with old | new
        · exact symbol_isSome_append (known symbol old) added
        · obtain rfl := List.mem_singleton.mp new
          exact symbol_isSome_self added rfl
      · intro second
        cases second
      · intro second
        cases second
  | label name =>
    refine ⟨_, rfl, ⟨declared, later, known⟩, fun second label member => ?_, symbols'⟩
    by_cases same : label = name
    · subst same
      exact congrArg Option.isSome (Function.update_self label (some parser.codeAddress) parser.labels)
    · change (Function.update parser.labels name (some parser.codeAddress) label).isSome = true
      rw [Function.update_of_ne same]
      exact defined second label member
  | instruction read =>
    obtain ⟨_, documented, labelled, declares⟩ := here
    have made : (read.word? emit parser).isSome = true :=
      word?_documented documented (fun second label member => defined second label (labelled label member))
        (fun symbol member => known symbol (declares symbol member))
    obtain ⟨word, is⟩ := Option.isSome_iff_exists.mp made
    have performed : Statement.perform emit parser (.instruction read) = some (afterWord emit parser word) := by
      rw [Statement.perform, is]
      rfl
    exact ⟨_, performed, ⟨declared, later, known⟩, defined, symbols'⟩

/-- And so all of them, by induction on the statements. -/
theorem ready_pass (ready : Ready emit labels statements { parser with section_ := .None }) :
    ∃ after, pass emit parser statements = some after := by
  obtain ⟨after, ran, _⟩ := PartialFold.succeeds (I := Ready emit labels)
    (fun _ _ _ ready => ready_performs ready) ready
  exact ⟨after, ran⟩

end Passes

/-- A documented program is one of the grammar, so its text reads back as itself. -/
theorem fitFrom_documented {labels declared : List Text} {section_ : SourceSection} {items : List Item}
    (documented : DocumentedFrom labels declared section_ items) : FitFrom section_ items := by
  induction items generalizing declared section_ with
  | nil => trivial
  | cons item items ih =>
    obtain ⟨here, later⟩ := documented
    refine ⟨?_, ih later⟩
    cases item with
    | bareCall syscall => exact here.1
    | statement read =>
      cases read with
      | openSection target => exact here
      | declaration type name literal =>
        have all : (["BYTE", "DBYTE", "WORD", "QWORD"].map String.toList).all
          (fun type => isReserved type == false) = true := by
          decide
        exact ⟨here.1, eq_of_beq (List.all_eq_true.mp all type here.2.1)⟩
      | label name => exact here
      | instruction read =>
        obtain ⟨free, count⟩ := fits_documented here.2.1
        exact ⟨here.1, free, count⟩

/-- A document without a bare system call is a list of statements. -/
theorem mapM_statement? (items : List Item) :
    items.mapM Item.statement? = none ∧ (∃ syscall, .bareCall syscall ∈ items) ∨
      ∃ statements, items = statements.map Item.statement ∧ items.mapM Item.statement? = some statements := by
  induction items with
  | nil => exact .inr ⟨[], rfl, rfl⟩
  | cons item items ih =>
    rw [List.mapM_cons]
    cases item with
    | bareCall syscall => exact .inl ⟨rfl, syscall, List.mem_cons_self⟩
    | statement read =>
      rcases ih with ⟨failed, syscall, member⟩ | ⟨statements, rfl, are⟩
      · rw [failed]
        exact .inl ⟨rfl, syscall, List.mem_cons_of_mem _ member⟩
      · rw [are]
        exact .inr ⟨read :: statements, rfl, rfl⟩

theorem filterMap_statements {α : Type} (statements : List Statement) (f : Item → Option α) :
    (statements.map Item.statement).filterMap f = statements.filterMap (fun statement => f (.statement statement)) := by
  rw [List.filterMap_map]
  rfl

/-- The first pass leaves every symbol known that is declared anywhere. -/
theorem symbol_isSome_of_pass {first : Parser} {statements : List Statement} {type name literal : Text}
    (passed : pass false { lexer := { source := [] } } statements = some first)
    (typed : (dataType? type).isSome = true) (declared : .declaration type name literal ∈ statements) :
    (symbolOffset? first name).isSome = true := by
  have symbols : first.dataSymbols.map place = layout 0 (declarations statements) :=
    (data_of_run_false passed).1.trans (List.nil_append _)
  obtain ⟨dataType, isType⟩ := Option.isSome_iff_exists.mp typed
  have member : (name, dataType) ∈ declarations statements := by
    refine List.mem_filterMap.mpr ⟨_, declared, ?_⟩
    rw [Statement.declaration?, isType]
    rfl
  have named : name ∈ (declarations statements).map Prod.fst := List.mem_map.mpr ⟨_, member, rfl⟩
  rw [symbolOffset?_eq, symbols, layout_find?, if_pos named]
  rfl

/-- Where a documented program declares a symbol, its type has a name. -/
theorem type_documented {labels declared : List Text} {section_ : SourceSection} {statements : List Statement}
    {type name literal : Text} (documented : DocumentedFrom labels declared section_ (statements.map Item.statement))
    (member : .declaration type name literal ∈ statements) : (dataType? type).isSome = true := by
  induction statements generalizing declared section_ with
  | nil => cases member
  | cons statement statements ih =>
    obtain ⟨here, later⟩ := documented
    rcases List.mem_cons.mp member with rfl | member
    · have all : (["BYTE", "DBYTE", "WORD", "QWORD"].map String.toList).all
        (fun type => (dataType? type).isSome) = true := by
        decide
      exact List.all_eq_true.mp all type here.2.1
    · exact ih later member

/-- Both passes get through a documented program. -/
theorem translate_documented {labels : List Text} {statements : List Statement}
    (documented : DocumentedFrom labels [] .None (statements.map Item.statement))
    (complete : ∀ label ∈ labels, .label label ∈ statements) : ∃ program, translate statements = some program := by
  have ready : Ready false labels statements { ({ lexer := { source := [] } } : Parser) with section_ := .None } := by
    refine ⟨⟨[], documented, ?_⟩, ?_, ?_⟩
    · intro symbol member
      cases member
    · intro second
      cases second
    · intro second
      cases second
  obtain ⟨first, passed⟩ := ready_pass ready
  have again : Ready true labels statements { first with codeAddress := 0, code := [], section_ := .None } := by
    refine ⟨⟨[], documented, ?_⟩, ?_, ?_⟩
    · intro symbol member
      cases member
    · intro _ label member
      have found : (first.labels label).isSome = true := label_isSome_of_run passed (.inl (complete label member))
      exact found
    · intro _ type name literal member
      have found : (symbolOffset? first name).isSome = true :=
        symbol_isSome_of_pass passed (type_documented documented member) member
      exact found
  have reentered : Ready true labels statements
      { ({ first with codeAddress := 0, code := [] } : Parser) with section_ := .None } := again
  obtain ⟨second, passed'⟩ := ready_pass reentered
  rw [translate_of_pass passed, passed']
  exact ⟨_, rfl⟩

/-- The words of an accepted source, against its instructions. -/
theorem Assembled.opcodes {source : Text} {program : AssembledProgram} {statements : List Statement}
    {first second : Parser}
    (assembled : Assembled source program statements first second) :
    List.Forall₂ (fun instruction word => instruction.opcode? = Opcode.ofByte? (decodeInstruction word).opcode)
      (instructions statements) program.code := by
  refine List.forall₂_iff_get.mpr ⟨assembled.code_length.symm, ?_⟩
  intro index inSource inCode
  obtain ⟨_, _, _, word, _, _, _, made, placed⟩ := assembled.word (List.getElem?_eq_getElem inSource)
  have same : program.code[index] = word := by
    rw [List.getElem?_eq_getElem inCode] at placed
    exact Option.some.inj placed
  rw [List.get_eq_getElem, List.get_eq_getElem, same]
  exact opcode_of_word made

/-- A program of docs/ISA.md is accepted, with a word for each instruction in
the order of the source, if and only if it has no comments and no system call
without an argument. -/
theorem documented_accepted_iff {document : List Line} {text : Text} (spelled : Spelled document text)
    (documented : Documented document) :
    (∃ program, assemble text = .ok program ∧
        List.Forall₂ (fun instruction word => instruction.opcode? = Opcode.ofByte? (decodeInstruction word).opcode)
          (documentInstructions document) program.code) ↔
      ∀ line ∈ document, line.comment = none ∧ ∀ syscall, line.item ≠ some (.bareCall syscall) := by
  have read := read_of_spelled spelled (fitFrom_documented documented)
  constructor
  · rintro ⟨program, accepted, _⟩
    obtain ⟨statements, first, second, assembled⟩ := exists_assembled accepted
    rw [assembled.read] at read
    have bare : ∀ line ∈ document, line.comment = none := by
      by_contra commented
      rw [if_neg commented] at read
      cases read
    rw [if_pos bare] at read
    intro line member
    refine ⟨bare line member, fun syscall held => ?_⟩
    rcases mapM_statement? (items document) with ⟨failed, _⟩ | ⟨statements', are, _⟩
    · rw [failed] at read
      cases read
    · have inItems : Item.bareCall syscall ∈ items document := List.mem_filterMap.mpr ⟨line, member, held⟩
      rw [are] at inItems
      obtain ⟨statement, _, impossible⟩ := List.mem_map.mp inItems
      cases impossible
  · intro plain
    have bare : ∀ line ∈ document, line.comment = none := fun line member => (plain line member).1
    rw [if_pos bare] at read
    rcases mapM_statement? (items document) with ⟨_, syscall, member⟩ | ⟨statements, are, mapped⟩
    · obtain ⟨line, member, held⟩ := List.mem_filterMap.mp member
      exact absurd held ((plain line member).2 syscall)
    rw [mapped] at read
    have documented' : DocumentedFrom ((items document).filterMap Item.label?) [] .None
      (statements.map Item.statement) := by
      rw [← are]
      exact documented
    have complete : ∀ label ∈ (items document).filterMap Item.label?, Statement.label label ∈ statements := by
      intro label member
      rw [are, filterMap_statements] at member
      obtain ⟨statement, member, labelled⟩ := List.mem_filterMap.mp member
      cases statement with
      | label name =>
        cases labelled
        exact member
      | openSection _ => cases labelled
      | declaration _ _ _ => cases labelled
      | instruction _ => cases labelled
    obtain ⟨program, translated⟩ := translate_documented documented' complete
    have accepted : assemble text = .ok program :=
      accepted_of_toOption (by rw [assemble_toOption, read, Option.bind_some, translated])
    obtain ⟨first, second, assembled⟩ := exists_assembled_of_read accepted read
    have sameInstructions : documentInstructions document = instructions statements := by
      rw [documentInstructions, are, filterMap_statements]
      rfl
    rw [sameInstructions]
    exact ⟨program, accepted, assembled.opcodes⟩

/-- A symbol, a jump to a label and a system call with an argument. -/
def movAndHalt : List Line :=
  [plainLine (.openSection .Data), plainLine (.declaration "WORD".toList "x".toList "5".toList),
    plainLine (.openSection .Code), plainLine (.label "top".toList),
    plainLine (.instruction ⟨"mov".toList, [.register "r0".toList, .memory "x".toList]⟩),
    plainLine (.instruction ⟨"call".toList, [.name "print".toList, .memory "x".toList]⟩),
    plainLine (.instruction ⟨"jl".toList, [.name "top".toList]⟩), plainLine (.instruction ⟨"halt".toList, []⟩)]

/-- The program is documented. -/
theorem documented_movAndHalt : Documented movAndHalt := by
  have data : SourceSection.Data ≠ .None := by decide
  have code : SourceSection.Code ≠ .None := by decide
  refine ⟨data, ⟨rfl, by decide, rfl, by decide, by decide⟩, code, ⟨rfl, rfl⟩, ⟨rfl, ?_, by decide, by decide⟩,
    ⟨rfl, ?_, by decide, by decide⟩, ⟨rfl, ?_, by decide, by decide⟩, ⟨rfl, .halt, by decide, by decide⟩, trivial⟩
  · exact .transfer (by decide) (by decide)
  · exact .call (by decide)
  · exact .jump (by decide)

/-- The assembler accepts it as it stands. -/
theorem documented_accepted_movAndHalt :
    (∃ program, assemble (render movAndHalt) = .ok program ∧
        List.Forall₂ (fun instruction word => instruction.opcode? = Opcode.ofByte? (decodeInstruction word).opcode)
          (documentInstructions movAndHalt) program.code) ↔
      ∀ line ∈ movAndHalt, line.comment = none ∧ ∀ syscall, line.item ≠ some (.bareCall syscall) :=
  documented_accepted_iff (spelled_render (by decide) (by decide)) documented_movAndHalt

/-- The system call of docs/ISA.md and of examples/multi_task.asm. -/
def yieldAndHalt : List Line :=
  [plainLine (.openSection .Code), { item := some (.bareCall "yield".toList) },
    plainLine (.instruction ⟨"halt".toList, []⟩)]

/-- And it refuses a documented program with a system call that has no argument. -/
theorem documented_accepted_fails_for_yield :
    ¬ ∀ (document : List Line) (text : Text), Spelled document text → Documented document →
        ∃ program, assemble text = .ok program ∧
          List.Forall₂ (fun instruction word => instruction.opcode? = Opcode.ofByte? (decodeInstruction word).opcode)
            (documentInstructions document) program.code := by
  intro accepted
  have code : SourceSection.Code ≠ .None := by decide
  have documented : Documented yieldAndHalt :=
    ⟨code, ⟨rfl, by decide⟩, ⟨rfl, .halt, by decide, by decide⟩, trivial⟩
  obtain ⟨program, assembled, _⟩ :=
    accepted yieldAndHalt (render yieldAndHalt) (spelled_render (by decide) (by decide)) documented
  have refused : (assemble (render yieldAndHalt)).toOption.isNone = true := by decide +kernel
  rw [assembled] at refused
  cases refused

example : (assemble "CODE:\nmov r0, 5 ; immediate".toList).toOption.isNone = true := by decide +kernel

end Source

end VirtualMachine
