import VirtualMachine.Assembler.DataImage
import VirtualMachine.Assembler.LabelMeaning
import VirtualMachine.Assembler.Documented
import VirtualMachine.Isa.CommandRun

namespace VirtualMachine

open VirtualMachine.Parser

namespace Source

/-- What the names of a source stand for. -/
structure Names where
  labels : Text → Option Address
  symbols : Text → Option Address

/-- A register is spelled with an `r` and its number. -/
def registerNumber? : Text → Option RegisterIndex
  | 'r' :: number =>
    if hasDigits number = true ∧ 0 ≤ literalValue number ∧ literalValue number ≤ 15 then
      some (BitVec.ofInt 4 (literalValue number))
    else none
  | _ => none

def binaryOperators : List (Text × BinaryOperator) :=
  [("add".toList, .add), ("sub".toList, .sub), ("mul".toList, .mul), ("div".toList, .div), ("mod".toList, .mod),
    ("and".toList, .and), ("or".toList, .or), ("xor".toList, .xor)]

def unaryOperators : List (Text × UnaryOperator) := [("inc".toList, .inc), ("dec".toList, .dec), ("not".toList, .not)]

def conditions : List (Text × Condition) :=
  [("jmp".toList, .always), ("je".toList, .equal), ("jne".toList, .notEqual), ("jg".toList, .greater),
    ("jge".toList, .greaterEqual), ("jl".toList, .less), ("jle".toList, .lessEqual)]

def syscalls : List (Text × SyscallId) :=
  [("print".toList, .Print), ("scan".toList, .Scan), ("exit".toList, .Exit), ("yield".toList, .Yield),
    ("load".toList, .Load)]

def operationCommand? (mnemonic : Text) (rd : RegisterIndex) (value : Value) : Option Command :=
  if mnemonic = "mov".toList then some (.mov rd value)
  else if mnemonic = "cmp".toList then some (.cmp rd value)
  else if mnemonic = "nop".toList then some .nop
  else (binaryOperators.lookup mnemonic).map (fun operator => .binary operator rd rd value)

def unaryCommand? (mnemonic : Text) (rd : RegisterIndex) : Option Command :=
  if mnemonic = "push".toList then some (.push (.register rd))
  else if mnemonic = "pop".toList then some (.pop rd)
  else (unaryOperators.lookup mnemonic).map (fun operator => .unary operator rd)

def branchCommand? (mnemonic : Text) (target : Address) : Option Command :=
  if mnemonic = "push".toList then some (.push (.constant target))
  else (conditions.lookup mnemonic).map (fun condition => .jump condition target)

def transferCommand? (mnemonic : Text) (rd : RegisterIndex) (offset : Address) : Option Command :=
  if mnemonic = "mov".toList ∨ mnemonic = "load".toList then some (.load rd offset)
  else if mnemonic = "store".toList then some (.store rd offset)
  else none

/-- The command that an instruction stands for, with the labels and the symbols
of its source. An address of the data can be written as a number too. -/
def Instruction.command? (names : Names) (instruction : Instruction) : Option Command :=
  match instruction.operands with
  | [] =>
    if instruction.mnemonic = "halt".toList then some .halt
    else if instruction.mnemonic = "ret".toList then some .ret
    else none
  | [.register rd] => (registerNumber? rd).bind (unaryCommand? instruction.mnemonic)
  | [.number literal] =>
    if instruction.mnemonic = "push".toList then some (.push (.constant (BitVec.ofInt 32 (literalValue literal))))
    else none
  | [.name label] => (names.labels label).bind (branchCommand? instruction.mnemonic)
  | [.register rd, .register rs] => do
    let rd ← registerNumber? rd
    let rs ← registerNumber? rs
    operationCommand? instruction.mnemonic rd (.register rs)
  | [.register rd, .number literal] => do
    let rd ← registerNumber? rd
    if instruction.mnemonic = "load".toList ∨ instruction.mnemonic = "store".toList then
      transferCommand? instruction.mnemonic rd (BitVec.ofInt 32 (literalValue literal))
    else operationCommand? instruction.mnemonic rd (.constant (BitVec.ofInt 32 (literalValue literal)))
  | [.register rd, .memory symbol] => do
    let rd ← registerNumber? rd
    let offset ← names.symbols symbol
    transferCommand? instruction.mnemonic rd offset
  | [.name syscall, .memory symbol] =>
    if instruction.mnemonic = "call".toList then do
      let id ← syscalls.lookup syscall
      let offset ← names.symbols symbol
      return .call (some id) offset
    else none
  | [.name syscall, .number literal] =>
    if instruction.mnemonic = "call".toList then
      (syscalls.lookup syscall).map (fun id => .call (some id) (BitVec.ofInt 32 (literalValue literal)))
    else none
  | _ => none

/-- The operand comes back from the word of its instruction, if it is the last one. -/
def Survives (names : Names) : Operand → Prop
  | .register name => registerNumber? name ≠ some 15
  | .number literal => -2048 ≤ literalValue literal ∧ literalValue literal ≤ 2047
  | .name label => ∀ target ∈ names.labels label, target.toNat < 2048
  | .memory symbol => ∀ offset ∈ names.symbols symbol, offset.toNat < 2048

instance (names : Names) : (operand : Operand) → Decidable (Survives names operand)
  | .register _ => inferInstanceAs (Decidable (_ ≠ _))
  | .number _ => inferInstanceAs (Decidable (_ ∧ _))
  -- Not by a look at all the addresses there are.
  | .name _ | .memory _ => Option.decidableForallMem _

/-- The operand whose value or address the word has to hold; of the instructions
with one register only `push` has one. -/
def Instruction.encoded? (instruction : Instruction) : Option Operand :=
  match instruction.operands with
  | [.register name] => if instruction.mnemonic = "push".toList then some (.register name) else none
  | operands => operands.getLast?

/-- A number that a system call is given is not negative. -/
def Instruction.Addresses (instruction : Instruction) : Operand → Prop
  | .number literal => instruction.mnemonic = "call".toList → 0 ≤ literalValue literal
  | _ => True

instance (instruction : Instruction) : (operand : Operand) → Decidable (instruction.Addresses operand)
  | .number _ => inferInstanceAs (Decidable (_ → _))
  | .register _ | .name _ | .memory _ => inferInstanceAs (Decidable True)

def Instruction.Survives (names : Names) (instruction : Instruction) : Prop :=
  ∀ operand ∈ instruction.encoded?, Source.Survives names operand ∧ instruction.Addresses operand

instance (names : Names) (instruction : Instruction) : Decidable (instruction.Survives names) :=
  inferInstanceAs (Decidable (∀ operand ∈ instruction.encoded?, Source.Survives names operand ∧ _))

section Decode

variable {opcode : Opcode} {rd rs1 rs2 : Byte} {imm : BitVec 16}

theorem decode_encodeInstruction :
    Command.decode (encodeInstruction opcode.toByte rd rs1 rs2 imm) =
      Command.ofInstruction ⟨opcode.toByte, rd.setWidth 4, rs1.setWidth 4, rs2.setWidth 4,
        (imm.setWidth 12).signExtend 16⟩ := by
  have isOpcode := decode_encode_opcode opcode.toByte rd rs1 rs2 imm
  have isRd := decode_encode_rd opcode.toByte rd rs1 rs2 imm
  have isRs1 := decode_encode_rs1 opcode.toByte rd rs1 rs2 imm
  have isRs2 := decode_encode_rs2 opcode.toByte rd rs1 rs2 imm
  have isImm := decode_encode_imm opcode.toByte rd rs1 rs2 imm
  rw [Command.decode, ← isRd, ← isRs1, ← isRs2, ← isImm]
  generalize decodeInstruction (encodeInstruction opcode.toByte rd rs1 rs2 imm) = instruction at isOpcode
  rw [← isOpcode]

theorem decode_value_constant {code : Byte} {target left : RegisterIndex} :
    Value.decode ⟨code, target, left, kImmediateMarker.setWidth 4, (imm.setWidth 12).signExtend 16⟩ =
      .constant (signedField imm) := if_pos rfl

theorem decode_value_register {code : Byte} {target left register : RegisterIndex} {field : BitVec 16}
    (apart : register ≠ 15) : Value.decode ⟨code, target, left, register, field⟩ = .register register := if_neg apart

theorem signedField_literal {n : Int} (low : -2048 ≤ n) (high : n ≤ 2047) :
    signedField (BitVec.ofInt 16 n) = BitVec.ofInt 32 n := by
  refine BitVec.eq_of_toInt_eq ((toInt_signedField_iff.mpr ⟨low, high⟩).trans ?_)
  rw [BitVec.toInt_ofInt]
  exact (Int.bmod_eq_of_le (by omega) (by omega)).symm

theorem unsignedField_literal {n : Int} (low : 0 ≤ n) (high : n ≤ 2047) :
    unsignedField (BitVec.ofInt 16 n) = BitVec.ofInt 32 n := by
  have value := toNat_unsignedField_iff.mpr (Or.inl ⟨low, by omega⟩)
  refine BitVec.eq_of_toNat_eq ?_
  rw [BitVec.toNat_ofInt]
  omega

theorem signedField_address {target : Address} (small : target.toNat < 2048) :
    signedField (target.setWidth 16) = target := signedField_eq_iff.mpr ⟨rfl, Or.inl small⟩

theorem unsignedField_address {target : Address} (small : target.toNat < 2048) :
    unsignedField (target.setWidth 16) = target := unsignedField_eq_iff.mpr ⟨rfl, Or.inl small⟩

end Decode

/-- `stoi` reads the digits of a text, where an `int` can hold their value. -/
theorem stoi_of_hasDigits {text : Text} (digits : hasDigits text = true) :
    stoi text =
      if literalValue text < -2 ^ 31 ∨ 2 ^ 31 ≤ literalValue text then .error .outOfRange
        else .ok (literalValue text) := by
  unfold stoi stringToInteger
  rw [digits]
  rfl

theorem stoi_of_not_hasDigits {text : Text} (digits : ¬ hasDigits text = true) :
    stoi text = .error .invalidArgument := by
  unfold stoi stringToInteger
  rw [eq_false_of_ne_true digits]
  rfl

/-- The number of a register is the one that the parser reads. -/
theorem registerNumber?_eq (name : Text) : registerNumber? name = (register? name).map (BitVec.setWidth 4) := by
  have count : (kRegisterCount : Int) = 16 := rfl
  unfold register? registerIndexFromName registerNumber?
  split
  · rename_i number
    by_cases short : ('r' :: number).length < 2 ∨ ('r' :: number).head? ≠ some 'r'
    · have few := short.resolve_right (not_not_intro rfl)
      obtain rfl : number = [] := List.eq_nil_of_length_eq_zero (by rw [List.length_cons] at few; omega)
      rw [if_pos short, if_neg (fun both => Bool.false_ne_true both.1)]
      rfl
    rw [if_neg short, List.tail_cons]
    by_cases digits : hasDigits number = true
    · rw [stoi_of_hasDigits digits]
      by_cases wide : literalValue number < -2 ^ 31 ∨ 2 ^ 31 ≤ literalValue number
      · rw [if_pos wide, if_neg (by omega)]
        rfl
      rw [if_neg wide]
      dsimp only
      by_cases range : 0 ≤ literalValue number ∧ literalValue number ≤ 15
      · rw [if_pos ⟨digits, range⟩, if_neg (by omega)]
        refine congrArg some (BitVec.eq_of_toNat_eq ?_)
        rw [BitVec.toNat_setWidth, BitVec.toNat_ofInt, BitVec.toNat_ofInt]
        omega
      · rw [if_neg (fun both => range both.2), if_pos (by omega)]
        rfl
    · rw [stoi_of_not_hasDigits digits, if_neg (fun both => digits both.1)]
      rfl
  · rename_i other
    have wrong : name.length < 2 ∨ name.head? ≠ some 'r' := by
      cases name with
      | nil => exact Or.inl (by decide)
      | cons first rest =>
        refine Or.inr fun same => other rest ?_
        rw [Option.some.inj same]
    rw [if_pos wrong]
    rfl

theorem register?_of_number {name : Text} {number : RegisterIndex} (named : registerNumber? name = some number) :
    ∃ field : Byte, register? name = some field ∧ field.setWidth 4 = number := by
  rw [registerNumber?_eq] at named
  exact Option.map_eq_some_iff.mp named

theorem mem_of_lookup {α : Type} {table : List (Text × α)} {name : Text} {value : α}
    (found : table.lookup name = some value) : (name, value) ∈ table := by
  obtain ⟨before, after, rfl, -⟩ := List.lookup_eq_some_iff.mp found
  exact List.mem_append_right before List.mem_cons_self

end Source

def BinaryOperator.opcode : BinaryOperator → Opcode
  | add => .ADD | sub => .SUB | mul => .MUL | div => .DIV | mod => .MOD | and => .AND | or => .OR | xor => .XOR

def UnaryOperator.opcode : UnaryOperator → Opcode
  | inc => .INC | dec => .DEC | not => .NOT

def Condition.opcode : Condition → Opcode
  | always => .JMP | equal => .JE | notEqual => .JNE | greater => .JG | greaterEqual => .JGE | less => .JL
  | lessEqual => .JLE

namespace Source

theorem opcode?_binary {mnemonic : Text} {operator : BinaryOperator}
    (is : binaryOperators.lookup mnemonic = some operator) :
    opcode? mnemonic = some operator.opcode := by
  have all : ∀ entry ∈ binaryOperators, opcode? entry.1 = some entry.2.opcode := by decide
  exact all _ (mem_of_lookup is)

theorem opcode?_unary {mnemonic : Text} {operator : UnaryOperator}
    (is : unaryOperators.lookup mnemonic = some operator) :
    opcode? mnemonic = some operator.opcode ∧ mnemonic ≠ "push".toList ∧ mnemonic ≠ "pop".toList := by
  have all : ∀ entry ∈ unaryOperators, opcode? entry.1 = some entry.2.opcode ∧ entry.1 ≠ "push".toList ∧
      entry.1 ≠ "pop".toList := by decide
  exact all _ (mem_of_lookup is)

theorem opcode?_condition {mnemonic : Text} {condition : Condition} (is : conditions.lookup mnemonic = some condition) :
    opcode? mnemonic = some condition.opcode := by
  have all : ∀ entry ∈ conditions, opcode? entry.1 = some entry.2.opcode := by decide
  exact all _ (mem_of_lookup is)

theorem syscall?_syscalls {name : Text} {id : SyscallId} (is : syscalls.lookup name = some id) :
    syscall? true name = some id := by
  have all : ∀ entry ∈ syscalls, syscall? true entry.1 = some entry.2 := by decide
  exact all _ (mem_of_lookup is)

/-- The opcode of an operation, and the command of a word with its fields;
`cmp` has no result, and `mov` no first operand. -/
theorem ofInstruction_operation {mnemonic : Text} {rd : RegisterIndex} {value : Value} {command : Command}
    (is : operationCommand? mnemonic rd value = some command) :
    ∃ opcode, opcode? mnemonic = some opcode ∧ opcode ≠ .LOAD ∧ opcode ≠ .STORE ∧
      ∀ instruction : DecodedInstruction, instruction.opcode = opcode.toByte → (opcode = .CMP ∨ instruction.rd = rd) →
        (opcode = .MOV ∨ instruction.rs1 = rd) → Value.decode instruction = value →
        Command.ofInstruction instruction = command := by
  unfold operationCommand? at is
  split at is
  · rename_i mov
    subst mov
    cases is
    refine ⟨.MOV, by decide, by decide, by decide, ?_⟩
    rintro instruction here (impossible | rfl) - rfl
    · cases impossible
    · rw [Command.ofInstruction, here, Opcode.ofByte?_toByte]
  · split at is
    · rename_i cmp
      subst cmp
      cases is
      refine ⟨.CMP, by decide, by decide, by decide, ?_⟩
      rintro instruction here - (impossible | rfl) rfl
      · cases impossible
      · rw [Command.ofInstruction, here, Opcode.ofByte?_toByte]
    · split at is
      · rename_i nop
        subst nop
        cases is
        refine ⟨.NOP, by decide, by decide, by decide, ?_⟩
        intro instruction here _ _ _
        rw [Command.ofInstruction, here, Opcode.ofByte?_toByte]
      · obtain ⟨operator, found, rfl⟩ := Option.map_eq_some_iff.mp is
        refine ⟨operator.opcode, opcode?_binary found, by cases operator <;> decide, by cases operator <;> decide, ?_⟩
        intro instruction here target left same
        have target : instruction.rd = rd := target.resolve_left (by cases operator <;> decide)
        have left : instruction.rs1 = rd := left.resolve_left (by cases operator <;> decide)
        rw [Command.ofInstruction, here, Opcode.ofByte?_toByte, target, left, same]
        cases operator <;> rfl

/-- The mnemonics of the table that take two operands and touch no data are the
operations of the source. -/
theorem operationCommand?_isSome {mnemonic : Text} {opcode : Opcode} (is : opcode? mnemonic = some opcode)
    (two : arity mnemonic = 2) (notTransfer : ¬ (opcode = .LOAD ∨ opcode = .STORE)) (rd : RegisterIndex)
    (value : Value) :
    (operationCommand? mnemonic rd value).isSome = true := by
  have all : ∀ entry ∈ OpcodeTable.mapping, arity entry.1 = 2 → ¬ (entry.2 = .LOAD ∨ entry.2 = .STORE) →
      entry.1 = "mov".toList ∨ entry.1 = "cmp".toList ∨ entry.1 = "nop".toList ∨
        (binaryOperators.lookup entry.1).isSome = true := by decide
  have named := all _ (mem_mapping_of_opcode? is) two notTransfer
  unfold operationCommand?
  split
  · rfl
  · rename_i notMov
    split
    · rfl
    · rename_i notCmp
      split
      · rfl
      · rename_i notNop
        rw [Option.isSome_map]
        exact ((named.resolve_left notMov).resolve_left notCmp).resolve_left notNop

theorem transferCommand?_isSome {mnemonic : Text} {opcode : Opcode} (is : opcode? mnemonic = some opcode)
    (transfers : opcode = .LOAD ∨ opcode = .STORE ∨ opcode = .MOV) (rd : RegisterIndex) (offset : Address) :
    (transferCommand? mnemonic rd offset).isSome = true := by
  have all : ∀ entry ∈ OpcodeTable.mapping, (entry.2 = .LOAD ∨ entry.2 = .STORE ∨ entry.2 = .MOV) →
      (entry.1 = "mov".toList ∨ entry.1 = "load".toList) ∨ entry.1 = "store".toList := by decide
  unfold transferCommand?
  by_cases loads : mnemonic = "mov".toList ∨ mnemonic = "load".toList
  · rw [if_pos loads]
    rfl
  · rw [if_neg loads, if_pos ((all _ (mem_mapping_of_opcode? is) transfers).resolve_left loads)]
    rfl

theorem transferMnemonic {mnemonic : Text} {opcode : Opcode} (is : opcode? mnemonic = some opcode)
    (transfers : opcode = .LOAD ∨ opcode = .STORE) : mnemonic = "load".toList ∨ mnemonic = "store".toList := by
  have all : ∀ entry ∈ OpcodeTable.mapping, (entry.2 = .LOAD ∨ entry.2 = .STORE) →
      entry.1 = "load".toList ∨ entry.1 = "store".toList := by decide
  exact all _ (mem_mapping_of_opcode? is) transfers

theorem unaryOperators_isSome {mnemonic : Text} {opcode : Opcode} (is : opcode? mnemonic = some opcode)
    (unary : isUnary opcode = true) : (unaryOperators.lookup mnemonic).isSome = true := by
  have all : ∀ entry ∈ OpcodeTable.mapping, isUnary entry.2 = true → (unaryOperators.lookup entry.1).isSome = true := by
    decide
  exact all _ (mem_mapping_of_opcode? is) unary

theorem conditions_isSome {mnemonic : Text} {opcode : Opcode} (is : opcode? mnemonic = some opcode)
    (jump : isJump opcode = true) : (conditions.lookup mnemonic).isSome = true := by
  have all : ∀ entry ∈ OpcodeTable.mapping, isJump entry.2 = true → (conditions.lookup entry.1).isSome = true := by
    decide
  exact all _ (mem_mapping_of_opcode? is) jump

theorem syscalls_isSome {name : Text} {id : SyscallId} (is : syscall? true name = some id) :
    (syscalls.lookup name).isSome = true := by
  have named : name ∈ syscalls.map Prod.fst := by
    have is : (parseSyscall name).toOption = some id := is
    unfold parseSyscall at is
    by_contra other
    simp only [syscalls, List.map_cons, List.map_nil, List.mem_cons, List.not_mem_nil, or_false, not_or] at other
    obtain ⟨notPrint, notScan, notExit, notYield, notLoad⟩ := other
    rw [if_neg notPrint, if_neg notScan, if_neg notExit, if_neg notYield, if_neg notLoad] at is
    cases is
  have all : ∀ name ∈ syscalls.map Prod.fst, (syscalls.lookup name).isSome = true := by decide
  exact all name named

theorem registerNumber?_isSome {name : Text} {field : Byte} (known : register? name = some field) :
    registerNumber? name = some (field.setWidth 4) := by
  rw [registerNumber?_eq, known, Option.map_some]

section Words

variable {names : Names} {parser : Parser} {mnemonic : Text} {command : Command} {word : Word}

/-- The parser knows the names as the source means them. -/
structure Knows (parser : Parser) (names : Names) : Prop where
  labels : ∀ label, parser.labels label = names.labels label
  symbols : ∀ symbol, symbolOffset? parser symbol = names.symbols symbol

theorem word_of_opcode {name : Text} {operand : Operand} {opcode : Opcode} {rd : Byte}
    (known : opcode? mnemonic = some opcode)
    (register : register? name = some rd) (notLoad : opcode ≠ .LOAD) (notStore : opcode ≠ .STORE) :
    Instruction.word? true parser ⟨mnemonic, [.register name, operand]⟩ =
      operationWord? true parser opcode rd operand := by
  rw [word_of_transfer known (mnemonic_of_opcode? known).1 register, if_neg (by simp [notLoad, notStore])]

theorem decode_registers {name other : Text} {rd rs : RegisterIndex} (target : registerNumber? name = some rd)
    (source : registerNumber? other = some rs) (is : operationCommand? mnemonic rd (.register rs) = some command)
    (last : registerNumber? other ≠ some 15)
    (made : Instruction.word? true parser ⟨mnemonic, [.register name, .register other]⟩ = some word) :
    Command.decode word = command := by
  have apart : rs ≠ 15 := fun marker => last (source.trans (congrArg some marker))
  obtain ⟨field, known, rfl⟩ := register?_of_number target
  obtain ⟨field', known', rfl⟩ := register?_of_number source
  obtain ⟨opcode, isOpcode, notLoad, notStore, decodes⟩ := ofInstruction_operation is
  rw [word_of_opcode isOpcode known notLoad notStore, operationWord?, known'] at made
  have made : registerWord opcode field field' = word := Option.some.inj made
  subst made
  unfold registerWord
  split
  · rename_i mov
    rw [encodeRegReg, decode_encodeInstruction]
    exact decodes _ rfl (Or.inr rfl) (Or.inl mov) (decode_value_register apart)
  · rw [encodeRegReg, decode_encodeInstruction]
    exact decodes _ rfl (Or.inr rfl) (Or.inr rfl) (decode_value_register apart)

theorem decode_number {name literal : Text} {rd : RegisterIndex} (target : registerNumber? name = some rd)
    (is : operationCommand? mnemonic rd (.constant (BitVec.ofInt 32 (literalValue literal))) = some command)
    (low : -2048 ≤ literalValue literal) (high : literalValue literal ≤ 2047)
    (made : Instruction.word? true parser ⟨mnemonic, [.register name, .number literal]⟩ = some word) :
    Command.decode word = command := by
  obtain ⟨field, known, rfl⟩ := register?_of_number target
  obtain ⟨opcode, isOpcode, notLoad, notStore, decodes⟩ := ofInstruction_operation is
  rw [word_of_opcode isOpcode known notLoad notStore, operationWord?] at made
  obtain ⟨imm, read, rfl⟩ := Option.map_eq_some_iff.mp made
  obtain rfl := immediate?_eq_some read
  have value : ∀ (code : Byte) (target left : RegisterIndex),
      Value.decode ⟨code, target, left, kImmediateMarker.setWidth 4,
        ((BitVec.ofInt 16 (literalValue literal)).setWidth 12).signExtend 16⟩ =
        .constant (BitVec.ofInt 32 (literalValue literal)) := by
    intro code target left
    rw [decode_value_constant, signedField_literal low high]
  split
  · rename_i mov
    rw [encodeMov, ← mov, decode_encodeInstruction]
    exact decodes _ rfl (Or.inr rfl) (Or.inl mov) (value _ _ _)
  · split
    · rename_i cmp
      rw [encodeRegImm, decode_encodeInstruction]
      exact decodes _ rfl (Or.inl cmp) (Or.inr rfl) (value _ _ _)
    · rw [encodeRegImm, decode_encodeInstruction]
      exact decodes _ rfl (Or.inr rfl) (Or.inr rfl) (value _ _ _)

theorem decode_transfer {name symbol : Text} {rd : RegisterIndex} {offset : Address}
    (target : registerNumber? name = some rd)
    (is : transferCommand? mnemonic rd offset = some command) (found : symbolOffset? parser symbol = some offset)
    (small : offset.toNat < 2048)
    (made : Instruction.word? true parser ⟨mnemonic, [.register name, .memory symbol]⟩ = some word) :
    Command.decode word = command := by
  obtain ⟨field, known, rfl⟩ := register?_of_number target
  unfold transferCommand? at is
  split at is
  · rename_i loads
    cases is
    have access : Instruction.dataAccess? ⟨mnemonic, [.register name, .memory symbol]⟩ =
      some (.load field, symbol) := by
      rcases loads with rfl | rfl
      · simp [Instruction.dataAccess?, accessOf?, known]
      · simp [Instruction.dataAccess?, accessOf?, known]
    rw [word_of_dataAccess access, found, Option.map_some] at made
    cases made
    rw [DataAccess.encode, decode_encodeInstruction]
    exact congrArg (Command.load (field.setWidth 4)) (signedField_address small)
  · split at is
    · rename_i store
      subst store
      cases is
      have access : Instruction.dataAccess? ⟨"store".toList, [.register name, .memory symbol]⟩ =
        some (.store field, symbol) := by
        simp [Instruction.dataAccess?, accessOf?, known]
      rw [word_of_dataAccess access, found, Option.map_some] at made
      cases made
      rw [DataAccess.encode, decode_encodeInstruction]
      exact congrArg (Command.store (field.setWidth 4)) (signedField_address small)
    · cases is

theorem decode_call {syscall symbol : Text} {id : SyscallId} {offset : Address} (is : syscalls.lookup syscall = some id)
    (found : symbolOffset? parser symbol = some offset) (small : offset.toNat < 2048)
    (made : Instruction.word? true parser ⟨"call".toList, [.name syscall, .memory symbol]⟩ = some word) :
    Command.decode word = .call (some id) offset := by
  rw [word_of_call (syscall?_syscalls is), offset?, found, Option.map_some] at made
  cases made
  rw [encodeCall, decode_encodeInstruction, Command.ofInstruction, Opcode.ofByte?_toByte]
  exact congrArg₂ Command.call (SyscallId.ofField?_toByte id) (unsignedField_address small)

/-- An address of the data that is written as a number. -/
theorem decode_transferNumber {name literal : Text} {rd : RegisterIndex} (target : registerNumber? name = some rd)
    (transfers : mnemonic = "load".toList ∨ mnemonic = "store".toList)
    (is : transferCommand? mnemonic rd (BitVec.ofInt 32 (literalValue literal)) = some command)
    (low : -2048 ≤ literalValue literal) (high : literalValue literal ≤ 2047)
    (made : Instruction.word? true parser ⟨mnemonic, [.register name, .number literal]⟩ = some word) :
    Command.decode word = command := by
  obtain ⟨field, known, rfl⟩ := register?_of_number target
  have transferred : ∀ {opcode : Opcode}, opcode = .LOAD ∨ opcode = .STORE → opcode? mnemonic = some opcode →
      ∃ imm, imm = BitVec.ofInt 16 (literalValue literal) ∧ word = encodeInstruction opcode.toByte field 0 0 imm := by
    intro opcode accesses isOpcode
    rw [word_of_transfer isOpcode (mnemonic_of_opcode? isOpcode).1 known, if_pos accesses, transferWord?,
      offset?] at made
    obtain ⟨_, widened, rfl⟩ := Option.map_eq_some_iff.mp made
    obtain ⟨imm, read, rfl⟩ := Option.map_eq_some_iff.mp widened
    exact ⟨imm, immediate?_eq_some read, by rw [LiteralUse.setWidth_signExtend]⟩
  unfold transferCommand? at is
  rcases transfers with rfl | rfl
  · rw [if_pos (Or.inr rfl)] at is
    cases is
    obtain ⟨_, rfl, rfl⟩ := transferred (Or.inl rfl) (by decide)
    rw [decode_encodeInstruction]
    exact congrArg (Command.load (field.setWidth 4)) (signedField_literal low high)
  · rw [if_neg (by decide), if_pos rfl] at is
    cases is
    obtain ⟨_, rfl, rfl⟩ := transferred (Or.inr rfl) (by decide)
    rw [decode_encodeInstruction]
    exact congrArg (Command.store (field.setWidth 4)) (signedField_literal low high)

/-- An argument of a system call that is written as a number. -/
theorem decode_callNumber {syscall literal : Text} {id : SyscallId} (is : syscalls.lookup syscall = some id)
    (low : 0 ≤ literalValue literal) (high : literalValue literal ≤ 2047)
    (made : Instruction.word? true parser ⟨"call".toList, [.name syscall, .number literal]⟩ = some word) :
    Command.decode word = .call (some id) (BitVec.ofInt 32 (literalValue literal)) := by
  rw [word_of_call (syscall?_syscalls is), offset?] at made
  obtain ⟨_, widened, rfl⟩ := Option.map_eq_some_iff.mp made
  obtain ⟨imm, read, rfl⟩ := Option.map_eq_some_iff.mp widened
  obtain rfl := immediate?_eq_some read
  rw [encodeCall, LiteralUse.setWidth_signExtend, decode_encodeInstruction, Command.ofInstruction,
    Opcode.ofByte?_toByte]
  exact congrArg₂ Command.call (SyscallId.ofField?_toByte id) (unsignedField_literal low high)

theorem decode_unary {name : Text} {rd : RegisterIndex} (target : registerNumber? name = some rd)
    (is : unaryCommand? mnemonic rd = some command) (last : mnemonic = "push".toList → registerNumber? name ≠ some 15)
    (made : Instruction.word? true parser ⟨mnemonic, [.register name]⟩ = some word) :
    Command.decode word = command := by
  have apart : mnemonic = "push".toList → rd ≠ 15 := fun push marker => last push (target.trans (congrArg some marker))
  obtain ⟨field, known, rfl⟩ := register?_of_number target
  have made : oneOperandWord? true parser mnemonic (.register name) = some word := made
  unfold unaryCommand? at is
  unfold oneOperandWord? at made
  split at is
  · rename_i push
    rw [if_pos push, pushWord?, known] at made
    cases is
    cases made
    change Command.decode (encodeRegReg .PUSH field field field) = _
    rw [encodeRegReg, decode_encodeInstruction]
    exact congrArg Command.push (decode_value_register (apart push))
  · rename_i notPush
    rw [if_neg notPush] at made
    split at is
    · rename_i pop
      rw [if_pos pop, unaryWord?, registerOperand?, known] at made
      cases is
      cases made
      rw [decode_encodeInstruction]
      rfl
    · rename_i notPop
      rw [if_neg notPop] at made
      obtain ⟨operator, found, rfl⟩ := Option.map_eq_some_iff.mp is
      have notJump : isJump operator.opcode = false := by cases operator <;> rfl
      have unary : isUnary operator.opcode = true := by cases operator <;> rfl
      rw [(opcode?_unary found).1] at made
      change (if isJump operator.opcode = true then _ else if isUnary operator.opcode = true then _ else _) = _ at made
      rw [notJump, if_neg (by decide), unary, if_pos rfl, unaryWord?, registerOperand?, known] at made
      cases made
      rw [decode_encodeInstruction, Command.ofInstruction, Opcode.ofByte?_toByte]
      cases operator <;> rfl

theorem decode_branch {label : Text} {target : Address} (is : branchCommand? mnemonic target = some command)
    (found : parser.labels label = some target) (small : target.toNat < 2048)
    (made : Instruction.word? true parser ⟨mnemonic, [.name label]⟩ = some word) : Command.decode word = command := by
  have made : oneOperandWord? true parser mnemonic (.name label) = some word := made
  unfold branchCommand? at is
  unfold oneOperandWord? at made
  split at is
  · rename_i push
    rw [if_pos push, pushWord?, target?, if_pos rfl, found] at made
    cases is
    cases made
    change Command.decode (encodeRegImm .PUSH 0 0 (target.setWidth 16)) = _
    rw [encodeRegImm, decode_encodeInstruction]
    refine congrArg Command.push ?_
    exact decode_value_constant.trans (congrArg Value.constant (signedField_address small))
  · rename_i notPush
    obtain ⟨condition, here, rfl⟩ := Option.map_eq_some_iff.mp is
    have jump : isJump condition.opcode = true := by cases condition <;> rfl
    have notPop : mnemonic ≠ "pop".toList := by
      rintro rfl
      cases condition <;> cases opcode?_condition here
    rw [if_neg notPush, if_neg notPop, opcode?_condition here] at made
    change (if isJump condition.opcode = true then _ else _) = _ at made
    rw [if_pos jump, jumpWord?, target?, if_pos rfl, found] at made
    cases made
    have offset := signedField_address small
    rw [encodeJump, decode_encodeInstruction, Command.ofInstruction, Opcode.ofByte?_toByte]
    cases condition <;> exact congrArg (Command.jump _) offset

theorem decode_pushNumber {literal : Text} (low : -2048 ≤ literalValue literal) (high : literalValue literal ≤ 2047)
    (made : Instruction.word? true parser ⟨"push".toList, [.number literal]⟩ = some word) :
    Command.decode word = .push (.constant (BitVec.ofInt 32 (literalValue literal))) := by
  have made : (immediate? literal).map (encodeRegImm .PUSH 0 0) = some word := made
  obtain ⟨imm, read, rfl⟩ := Option.map_eq_some_iff.mp made
  obtain rfl := immediate?_eq_some read
  rw [encodeRegImm, decode_encodeInstruction]
  refine congrArg Command.push ?_
  exact decode_value_constant.trans (congrArg Value.constant (signedField_literal low high))

theorem decode_bare (is : Instruction.command? names ⟨mnemonic, []⟩ = some command)
    (made : bareWord? mnemonic = some word) : Command.decode word = command := by
  unfold Instruction.command? at is
  unfold bareWord? at made
  dsimp only at is
  split at is
  · rename_i halt
    rw [if_pos halt] at made
    cases is
    cases made
    exact decode_encodeInstruction
  · rename_i notHalt
    rw [if_neg notHalt] at made
    split at is
    · rename_i ret
      rw [if_pos ret] at made
      cases is
      cases made
      exact decode_encodeInstruction
    · cases is

/-- The word of an instruction that survives decodes to what the instruction says. -/
theorem decode_word {instruction : Instruction} (knows : Knows parser names)
    (survives : instruction.Survives names) (is : instruction.command? names = some command)
    (made : instruction.word? true parser = some word) : Command.decode word = command := by
  obtain ⟨mnemonic, operands⟩ := instruction
  unfold Instruction.command? at is
  dsimp only at is
  split at is
  · have is : Instruction.command? names ⟨mnemonic, []⟩ = some command := is
    exact decode_bare is made
  · rename_i name
    obtain ⟨rd, target, is⟩ := Option.bind_eq_some_iff.mp is
    exact decode_unary target is (fun push => (survives (.register name) (if_pos push)).1) made
  · rename_i literal
    split at is
    · rename_i push
      subst push
      cases is
      obtain ⟨low, high⟩ : _ ∧ _ := (survives (.number literal) rfl).1
      exact decode_pushNumber low high made
    · cases is
  · rename_i label
    obtain ⟨target, found, is⟩ := Option.bind_eq_some_iff.mp is
    exact decode_branch is ((knows.labels label).trans found) ((survives (.name label) rfl).1 target found) made
  · rename_i name other
    obtain ⟨rd, target, is⟩ := Option.bind_eq_some_iff.mp is
    obtain ⟨rs, source, is⟩ := Option.bind_eq_some_iff.mp is
    exact decode_registers target source is (survives (.register other) rfl).1 made
  · rename_i name literal
    obtain ⟨rd, target, is⟩ := Option.bind_eq_some_iff.mp is
    obtain ⟨low, high⟩ : _ ∧ _ := (survives (.number literal) rfl).1
    split at is
    · rename_i transfers
      exact decode_transferNumber target transfers is low high made
    · exact decode_number target is low high made
  · rename_i name symbol
    obtain ⟨rd, target, is⟩ := Option.bind_eq_some_iff.mp is
    obtain ⟨offset, found, is⟩ := Option.bind_eq_some_iff.mp is
    have small := (survives (.memory symbol) rfl).1 offset found
    exact decode_transfer target is ((knows.symbols symbol).trans found) small made
  · rename_i syscall symbol
    split at is
    · rename_i call
      subst call
      obtain ⟨id, known, is⟩ := Option.bind_eq_some_iff.mp is
      obtain ⟨offset, found, is⟩ := Option.bind_eq_some_iff.mp is
      cases is
      have small := (survives (.memory symbol) rfl).1 offset found
      exact decode_call known ((knows.symbols symbol).trans found) small made
    · cases is
  · rename_i syscall literal
    split at is
    · rename_i call
      subst call
      obtain ⟨id, known, rfl⟩ := Option.map_eq_some_iff.mp is
      obtain ⟨⟨-, high⟩, addresses⟩ := survives (.number literal) rfl
      exact decode_callNumber known (addresses rfl) high made
    · cases is
  · cases is

section Commands

variable {name : Text} {opcode : Opcode} {rd : RegisterIndex} {field : Byte} {operand : Operand}

/-- Each function of the assembler that makes a word has its part of
`Instruction.command?`, which gives a command for every operand that it accepts. -/
theorem command?_isSome_of_push (knows : Knows parser names) (made : pushWord? true parser operand = some word) :
    (Instruction.command? names ⟨"push".toList, [operand]⟩).isSome = true := by
  cases operand with
  | register name =>
    obtain ⟨field, known, -⟩ := Option.map_eq_some_iff.mp made
    simp only [Instruction.command?, registerNumber?_isSome known, Option.bind_some, unaryCommand?, if_true,
      Option.isSome_some]
  | number literal => rfl
  | name label =>
    obtain ⟨target, found, -⟩ := Option.map_eq_some_iff.mp made
    have found : names.labels label = some target := (knows.labels label).symm.trans found
    simp only [Instruction.command?, found, Option.bind_some, branchCommand?, if_true, Option.isSome_some]
  | memory symbol => cases made

theorem command?_isSome_of_unary (made : unaryWord? opcode operand = some word)
    (stands : ∀ rd, (unaryCommand? mnemonic rd).isSome = true) :
    (Instruction.command? names ⟨mnemonic, [operand]⟩).isSome = true := by
  cases operand with
  | register name =>
    obtain ⟨field, known, -⟩ := Option.map_eq_some_iff.mp made
    simp only [Instruction.command?, registerNumber?_isSome known, Option.bind_some]
    exact stands _
  | number literal => cases made
  | name label => cases made
  | memory symbol => cases made

theorem command?_isSome_of_jump (knows : Knows parser names)
    (made : jumpWord? true parser opcode operand = some word)
    (stands : ∀ target, (branchCommand? mnemonic target).isSome = true) :
    (Instruction.command? names ⟨mnemonic, [operand]⟩).isSome = true := by
  cases operand with
  | name label =>
    obtain ⟨target, found, -⟩ := Option.map_eq_some_iff.mp made
    have found : names.labels label = some target := (knows.labels label).symm.trans found
    simp only [Instruction.command?, found, Option.bind_some]
    exact stands target
  | register name => cases made
  | number literal => cases made
  | memory symbol => cases made

theorem command?_isSome_of_call {argument : Operand} (knows : Knows parser names)
    (made : callWord? true parser argument operand = some word) :
    (Instruction.command? names ⟨"call".toList, [operand, argument]⟩).isSome = true := by
  cases operand with
  | name syscall =>
    obtain ⟨offset, placed, made⟩ := Option.bind_eq_some_iff.mp made
    obtain ⟨id, known, -⟩ := Option.bind_eq_some_iff.mp made
    obtain ⟨id, found⟩ := Option.isSome_iff_exists.mp (syscalls_isSome known)
    cases argument with
    | memory symbol =>
      have placed : names.symbols symbol = some offset := (knows.symbols symbol).symm.trans placed
      simp only [Instruction.command?, if_true, found, placed]
      rfl
    | number literal =>
      simp only [Instruction.command?, if_true, found]
      rfl
    | register name => cases placed
    | name label => cases placed
  | register name => cases made
  | number literal => cases made
  | memory symbol => cases made

/-- `load`, `store`, and `mov` from memory. -/
theorem command?_isSome_of_symbol {symbol : Text} (knows : Knows parser names) (known : opcode? mnemonic = some opcode)
    (target : registerNumber? name = some rd) (transfers : opcode = .LOAD ∨ opcode = .STORE ∨ opcode = .MOV)
    {loads : Opcode} (made : transferWord? parser loads field (.memory symbol) = some word) :
    (Instruction.command? names ⟨mnemonic, [.register name, .memory symbol]⟩).isSome = true := by
  obtain ⟨offset, placed, -⟩ := Option.map_eq_some_iff.mp made
  have placed : names.symbols symbol = some offset := (knows.symbols symbol).symm.trans placed
  simp only [Instruction.command?, target, placed]
  exact transferCommand?_isSome known transfers rd offset

theorem command?_isSome_of_transfer (knows : Knows parser names) (known : opcode? mnemonic = some opcode)
    (target : registerNumber? name = some rd) (transfers : opcode = .LOAD ∨ opcode = .STORE)
    (made : transferWord? parser opcode field operand = some word) :
    (Instruction.command? names ⟨mnemonic, [.register name, operand]⟩).isSome = true := by
  cases operand with
  | memory symbol => exact command?_isSome_of_symbol knows known target (transfers.imp_right Or.inl) made
  | number literal =>
    have named : mnemonic = "load".toList ∨ mnemonic = "store".toList := transferMnemonic known transfers
    simp only [Instruction.command?, target, if_pos named]
    exact transferCommand?_isSome known (transfers.imp_right Or.inl) rd _
  | register name =>
    obtain ⟨_, placed, -⟩ := Option.map_eq_some_iff.mp made
    cases placed
  | name label =>
    obtain ⟨_, placed, -⟩ := Option.map_eq_some_iff.mp made
    cases placed

theorem command?_isSome_of_operation (knows : Knows parser names) (two : arity mnemonic = 2)
    (known : opcode? mnemonic = some opcode) (target : registerNumber? name = some rd)
    (notTransfer : ¬ (opcode = .LOAD ∨ opcode = .STORE))
    (made : operationWord? true parser opcode field operand = some word) :
    (Instruction.command? names ⟨mnemonic, [.register name, operand]⟩).isSome = true := by
  have operates := operationCommand?_isSome known two notTransfer rd
  cases operand with
  | register other =>
    obtain ⟨field', register', -⟩ := Option.map_eq_some_iff.mp made
    simp only [Instruction.command?, target, registerNumber?_isSome register']
    exact operates _
  | number literal =>
    have apart : ¬ (mnemonic = "load".toList ∨ mnemonic = "store".toList) := by
      rintro (rfl | rfl)
      · exact notTransfer (Or.inl (Option.some.inj (known.symm.trans rfl)))
      · exact notTransfer (Or.inr (Option.some.inj (known.symm.trans rfl)))
    simp only [Instruction.command?, target, if_neg apart]
    exact operates _
  | memory symbol =>
    unfold operationWord? at made
    dsimp only at made
    split at made
    · rename_i mov
      exact command?_isSome_of_symbol knows known target (Or.inr (Or.inr (mov.resolve_right (by decide)))) made
    · cases made
  | name label => cases made

end Commands

/-- An instruction with one operand that has a word stands for a command. -/
theorem command?_isSome_of_one {operand : Operand} (knows : Knows parser names)
    (made : oneOperandWord? true parser mnemonic operand = some word) :
    (Instruction.command? names ⟨mnemonic, [operand]⟩).isSome = true := by
  unfold oneOperandWord? at made
  split at made
  · rename_i push
    subst push
    exact command?_isSome_of_push knows made
  rename_i notPush
  split at made
  · rename_i pop
    subst pop
    exact command?_isSome_of_unary made (fun rd => by rw [unaryCommand?, if_neg notPush, if_pos rfl]; rfl)
  rename_i notPop
  obtain ⟨opcode, known, made⟩ := Option.bind_eq_some_iff.mp made
  split at made
  · rename_i jump
    refine command?_isSome_of_jump knows made (fun target => ?_)
    rw [branchCommand?, if_neg notPush, Option.isSome_map]
    exact conditions_isSome known jump
  split at made
  · rename_i unary
    refine command?_isSome_of_unary made (fun rd => ?_)
    rw [unaryCommand?, if_neg notPush, if_neg notPop, Option.isSome_map]
    exact unaryOperators_isSome known unary
  · cases made

/-- An instruction with two operands that has a word stands for a command. -/
theorem command?_isSome_of_two {first second : Operand} (knows : Knows parser names) (two : arity mnemonic = 2)
    (made : twoOperandsWord? true parser mnemonic first second = some word) :
    (Instruction.command? names ⟨mnemonic, [first, second]⟩).isSome = true := by
  unfold twoOperandsWord? at made
  split at made
  · rename_i call
    subst call
    exact command?_isSome_of_call knows made
  obtain ⟨opcode, known, withRegister⟩ := Option.bind_eq_some_iff.mp made
  obtain ⟨field, register, encoded⟩ := Option.bind_eq_some_iff.mp withRegister
  cases first with
  | register name =>
    have target := registerNumber?_isSome register
    split at encoded
    · rename_i transfers
      exact command?_isSome_of_transfer knows known target transfers encoded
    · rename_i notTransfer
      exact command?_isSome_of_operation knows two known target notTransfer encoded
  | number literal => cases register
  | name label => cases register
  | memory symbol => cases register

/-- An instruction of which the parser makes a word stands for a command. -/
theorem command?_isSome {instruction : Instruction} (knows : Knows parser names)
    (count : instruction.operands.length = arity instruction.mnemonic)
    (made : instruction.word? true parser = some word) :
    (instruction.command? names).isSome = true := by
  obtain ⟨mnemonic, operands⟩ := instruction
  match operands, count, made with
  | [], _, made =>
    have made : bareWord? mnemonic = some word := made
    unfold bareWord? at made
    unfold Instruction.command?
    dsimp only
    split at made
    · rename_i halt
      rw [if_pos halt]
      rfl
    · rename_i notHalt
      rw [if_neg notHalt]
      split at made
      · rename_i ret
        rw [if_pos ret]
        rfl
      · cases made
  | [operand], _, made => exact command?_isSome_of_one knows made
  | [first, second], count, made => exact command?_isSome_of_two knows count.symm made

end Words

def Statement.label? : Statement → Option Text
  | .label name => some name
  | _ => none

/-- No label is defined twice. -/
def LabelsOnce (statements : List Statement) : Prop := (statements.filterMap Statement.label?).Nodup

instance (statements : List Statement) : Decidable (LabelsOnce statements) := inferInstanceAs (Decidable (List.Nodup _))

/-- A label stands for the instruction below it, a symbol for the offset of the first one declared with its name. -/
def names (statements : List Statement) : Names where
  labels label := (lastDefinition? label statements).map (BitVec.ofNat 32)
  symbols symbol :=
    if symbol ∈ (declarations statements).map Prod.fst then
      some (BitVec.ofNat 32 (nameOffset (declarations statements) symbol))
    else none

/-- The commands that the instructions of a source stand for. -/
def commands? (statements : List Statement) : Option (List Command) :=
  (instructions statements).mapM (Instruction.command? (names statements))

variable {source : Text} {program : AssembledProgram} {statements before later : List Statement} {first second : Parser}
  {name : Text} {commands : List Command}

theorem lastDefinition?_append (name : Text) (before later : List Statement) :
    lastDefinition? name (before ++ later) =
      ((lastDefinition? name later).map (fun below => (instructions before).length + below)).or
        (lastDefinition? name before) := by
  induction before with
  | nil =>
    have same : (fun below => (instructions []).length + below) = id := funext Nat.zero_add
    rw [List.nil_append, same, Option.map_id, lastDefinition?, Option.or_none]
    rfl
  | cons statement before ih =>
    have count : (instructions (statement :: before)).length =
        (instructions [statement]).length + (instructions before).length := by
      have split : instructions (statement :: before) = instructions [statement] ++ instructions before :=
        List.filterMap_append (l := [statement])
      rw [split, List.length_append]
    rw [List.cons_append, lastDefinition?, ih, lastDefinition?]
    cases lastDefinition? name later with
    | some below => simp only [Option.map_some, Option.some_or, count, Nat.add_assoc]
    | none =>
      rw [Option.map_none, Option.none_or, Option.map_none, Option.none_or]

theorem mem_of_lastDefinition? {count : Nat} (found : lastDefinition? name statements = some count) :
    .label name ∈ statements := by
  induction statements generalizing count with
  | nil => cases found
  | cons statement rest ih =>
    rw [lastDefinition?] at found
    cases below : lastDefinition? name rest with
    | some other => exact List.mem_cons_of_mem _ (ih below)
    | none =>
      rw [below] at found
      dsimp only at found
      split at found
      · rename_i here
        rw [here]
        exact List.mem_cons_self
      · cases found

/-- Where no label is defined twice, each has one meaning. -/
theorem decidingDefinition?_eq (once : LabelsOnce (before ++ later)) :
    decidingDefinition? name (before ++ later) before = lastDefinition? name (before ++ later) := by
  rw [decidingDefinition?]
  cases above : lastDefinition? name before with
  | none => rfl
  | some count =>
    have notLater : lastDefinition? name later = none := by
      cases below : lastDefinition? name later with
      | none => rfl
      | some other =>
        rw [LabelsOnce, List.filterMap_append, List.nodup_append] at once
        have first : name ∈ before.filterMap Statement.label? :=
          List.mem_filterMap.mpr ⟨_, mem_of_lastDefinition? above, rfl⟩
        have last : name ∈ later.filterMap Statement.label? :=
          List.mem_filterMap.mpr ⟨_, mem_of_lastDefinition? below, rfl⟩
        exact absurd rfl (once.2.2 name first name last)
    rw [lastDefinition?_append, notLater, above]
    rfl

theorem knows_of_pass (assembled : Assembled source program statements first second) (once : LabelsOnce statements)
    {middle : Parser} (split : statements = before ++ later)
    (ran : pass true { first with codeAddress := 0, code := [] } before = some middle) :
    Knows middle (names statements) where
  labels label := by
    rw [assembled.label_eq ran, split, decidingDefinition?_eq (split ▸ once), ← split]
    rfl
  symbols symbol := by
    have symbols : middle.dataSymbols = first.dataSymbols := (data_of_run_true ran).1
    have offset : ∀ bytes : Nat, (0 + BitVec.ofNat 32 bytes : Address) = BitVec.ofNat 32 (bytes % 4294967296) := by
      intro bytes
      refine BitVec.eq_of_toNat_eq ?_
      rw [BitVec.toNat_add, BitVec.toNat_ofNat, BitVec.toNat_ofNat]
      change (0 + _) % 2 ^ 32 = _
      omega
    rw [symbolOffset?_eq, symbols, assembled.symbols, layout_find?, offset]
    rfl

theorem forall₂_of_mapM {α β : Type} {f : α → Option β} {xs : List α} {ys : List β} (found : xs.mapM f = some ys) :
    List.Forall₂ (fun x y => f x = some y) xs ys := by
  induction xs generalizing ys with
  | nil =>
    cases found
    exact .nil
  | cons x xs ih =>
    rw [List.mapM_cons] at found
    obtain ⟨y, first, found⟩ := Option.bind_eq_some_iff.mp found
    obtain ⟨rest, later, same⟩ := Option.bind_eq_some_iff.mp found
    cases same
    exact .cons first (ih later)

theorem exists_mapM {α β : Type} {f : α → Option β} {xs : List α} (each : ∀ x ∈ xs, (f x).isSome = true) :
    ∃ ys, xs.mapM f = some ys := by
  induction xs with
  | nil => exact ⟨[], rfl⟩
  | cons x xs ih =>
    obtain ⟨y, first⟩ := Option.isSome_iff_exists.mp (each x List.mem_cons_self)
    obtain ⟨ys, others⟩ := ih (fun x member => each x (List.mem_cons_of_mem _ member))
    refine ⟨y :: ys, ?_⟩
    rw [List.mapM_cons, first, others]
    rfl

/-- Every instruction of an accepted source stands for a command. -/
theorem exists_commands (accepted : assemble source = .ok program) (read : Source.read source = some statements)
    (once : LabelsOnce statements) : ∃ commands, commands? statements = some commands := by
  obtain ⟨first, second, assembled⟩ := exists_assembled_of_read accepted read
  refine exists_mapM fun instruction member => ?_
  obtain ⟨statement, spelled, is⟩ := List.mem_filterMap.mp member
  obtain rfl : statement = .instruction instruction := by
    cases statement with
    | instruction other => exact congrArg Statement.instruction (Option.some.inj is)
    | openSection _ => cases is
    | declaration _ _ _ => cases is
    | label _ => cases is
  obtain ⟨k, found⟩ := List.mem_iff_getElem?.mp member
  obtain ⟨before, later, middle, word, split, -, ran, made, -⟩ := assembled.word found
  exact command?_isSome (knows_of_pass assembled once split ran) (read_arity read spelled) made

/-- The words of an accepted source decode to what its instructions say. -/
theorem decodeAll_code (accepted : assemble source = .ok program) (read : Source.read source = some statements)
    (once : LabelsOnce statements)
    (survive : ∀ instruction ∈ instructions statements, instruction.Survives (names statements))
    (means : commands? statements = some commands) : Command.decodeAll program.code = commands := by
  obtain ⟨first, second, assembled⟩ := exists_assembled_of_read accepted read
  have each := forall₂_of_mapM means
  have length : program.code.length = commands.length := assembled.code_length.trans each.length_eq
  refine List.ext_getElem (by rw [Command.decodeAll, List.length_map, length]) fun k here there => ?_
  have bound : k < (instructions statements).length := by
    rw [each.length_eq]
    exact there
  have found : (instructions statements)[k]? = some (instructions statements)[k] := List.getElem?_eq_getElem bound
  obtain ⟨before, later, middle, word, split, -, ran, made, placed⟩ := assembled.word found
  have command : (instructions statements)[k].command? (names statements) = some commands[k] :=
    each.get bound there
  have decoded := decode_word (knows_of_pass assembled once split ran) (survive _ (List.getElem_mem bound)) command made
  have whole := decodeAll_getElem? program.code k
  rw [placed, Option.map_some, decoded] at whole
  exact (List.getElem?_eq_some_iff.mp whole).2

/-- The bytes that the declarations of a source stand for. -/
def dataBytes (statements : List Statement) : List Byte :=
  (declaredData statements).flatMap (fun datum =>
    (List.range (dataTypeSize datum.2.1)).map (encodingByte datum.2.1 (literalValue datum.2.2)))

/-- The literals that their symbols can hold and that are not damaged on their way. -/
def DataSurvives (statements : List Statement) : Prop :=
  declaredBytes (declarations statements) < 2 ^ 32 ∧
    ∀ datum ∈ declaredData statements, Representable datum.2.1 (literalValue datum.2.2) ∧
      KeptBySixteenBits datum.2.1 (literalValue datum.2.2)

instance (type : DataType) (n : Int) : Decidable (KeptBySixteenBits type n) :=
  match type with
  | .Byte | .DByte => isTrue trivial
  | .Word => inferInstanceAs (Decidable (_ ∧ _ ∨ _))
  | .QWord => inferInstanceAs (Decidable (_ ∧ _))

instance (statements : List Statement) : Decidable (DataSurvives statements) :=
  inferInstanceAs (Decidable (_ ∧ ∀ datum ∈ declaredData statements, (_ ∧ _) ∧ _))

theorem eq_flatMap {α β : Type} {width : α → Nat} {byte : α → Nat → β} {xs : List α} {data : List β}
    (length : data.length = (xs.map width).sum)
    (each : ∀ (i : Nat) x k, xs[i]? = some x → k < width x → data[((xs.take i).map width).sum + k]? = some (byte x k)) :
    data = xs.flatMap (fun x => (List.range (width x)).map (byte x)) := by
  induction xs generalizing data with
  | nil => exact List.eq_nil_of_length_eq_zero length
  | cons x xs ih =>
    rw [List.map_cons, List.sum_cons] at length
    have first : data.take (width x) = (List.range (width x)).map (byte x) := by
      refine List.ext_getElem? fun k => ?_
      rcases Nat.lt_or_ge k (width x) with inside | outside
      · have here := each 0 x k rfl inside
        rw [List.take_zero, List.map_nil, List.sum_nil, Nat.zero_add] at here
        rw [List.getElem?_take_of_lt inside, here, List.getElem?_map, List.getElem?_range inside]
        rfl
      · rw [List.getElem?_eq_none (by rw [List.length_take]; omega),
          List.getElem?_eq_none (by rw [List.length_map, List.length_range]; exact outside)]
    have rest : data.drop (width x) = xs.flatMap (fun x => (List.range (width x)).map (byte x)) := by
      refine ih (by rw [List.length_drop]; omega) fun i y k at? small => ?_
      have here := each (i + 1) y k at? small
      rw [List.take_succ_cons, List.map_cons, List.sum_cons, Nat.add_assoc] at here
      rw [List.getElem?_drop, here]
    rw [List.flatMap_cons, ← first, ← rest, List.take_append_drop]

/-- The data image of an accepted source holds what its declarations say. -/
theorem data_eq_dataBytes (accepted : assemble source = .ok program) (read : Source.read source = some statements)
    (survive : DataSurvives statements) : program.data = dataBytes statements := by
  obtain ⟨first, second, assembled⟩ := exists_assembled_of_read accepted read
  obtain ⟨bounded, kept⟩ := survive
  have sum : ∀ declared : List (Text × DataType × Text),
      declaredBytes (dataTypes declared) = (declared.map (fun datum => dataTypeSize datum.2.1)).sum := by
    intro declared
    rw [declaredBytes, dataTypes, List.map_map]
    rfl
  refine eq_flatMap ?_ fun i datum k declared small => ?_
  · rw [assembled.data_length, Nat.mod_eq_of_lt bounded, ← sum, dataTypes_declaredData]
  · have types : dataTypes ((declaredData statements).take i) = (declarations statements).take i := by
      rw [← dataTypes_declaredData, dataTypes, dataTypes, List.map_take]
    have member := List.mem_of_getElem? declared
    obtain ⟨representable, survives⟩ := kept datum member
    rw [← sum, types, assembled.image_byte bounded declared small]
    exact congrArg some ((storedValue_bytes_iff (assembled.literal_range member) representable).mpr survives k small)

/-- What a source says: the commands, and the data they start from. -/
structure Meaning where
  commands : List Command
  data : List Byte
  deriving DecidableEq, Repr

def meaning? (statements : List Statement) : Option Meaning :=
  (commands? statements).map (fun commands => { commands := commands, data := dataBytes statements })

/-- Nothing that the statements say is damaged on its way into the image. -/
structure Intact (statements : List Statement) : Prop where
  labels : LabelsOnce statements
  instructions : ∀ instruction ∈ instructions statements, instruction.Survives (names statements)
  data : DataSurvives statements

instance (statements : List Statement) : Decidable (Intact statements) :=
  decidable_of_iff
    (LabelsOnce statements ∧ (∀ instruction ∈ instructions statements, instruction.Survives (names statements)) ∧
      DataSurvives statements)
    ⟨fun ⟨labels, instructions, data⟩ => ⟨labels, instructions, data⟩,
      fun ⟨labels, instructions, data⟩ => ⟨labels, instructions, data⟩⟩

/-- Every accepted source of which nothing is damaged says something, and its
image, read back word by word and byte by byte, is what it says. -/
theorem image_means (accepted : assemble source = .ok program) :
    ∃ statements, Source.read source = some statements ∧
      (Intact statements → ∃ meaning, meaning? statements = some meaning ∧
        Command.decodeAll program.code = meaning.commands ∧ program.data = meaning.data) := by
  obtain ⟨statements, first, second, assembled⟩ := exists_assembled accepted
  refine ⟨statements, assembled.read, fun intact => ?_⟩
  obtain ⟨commands, means⟩ := exists_commands accepted assembled.read intact.labels
  refine ⟨{ commands := commands, data := dataBytes statements }, ?_, ?_, ?_⟩
  · rw [meaning?, means, Option.map_some]
  · exact decodeAll_code accepted assembled.read intact.labels intact.instructions means
  · exact data_eq_dataBytes accepted assembled.read intact.data

def countdownSource : Text :=
  "DATA:\nWORD x 5\nCODE:\nload r1, [x]\nagain:\ncall print, [x]\nsub r1, 1\njne again\nhalt\n".toList

theorem image_means_countdown :
    ∃ program, assemble countdownSource = .ok program ∧
      Command.decodeAll program.code =
        [.load 1 0, .call (some .Print) 0, .binary .sub 1 1 (.constant 1), .jump .notEqual 1, .halt] ∧
      program.data = [5, 0, 0, 0] := by
  have checked : ∃ statements ∈ Source.read countdownSource, Intact statements ∧ meaning? statements =
      some { commands := [.load 1 0, .call (some .Print) 0, .binary .sub 1 1 (.constant 1), .jump .notEqual 1, .halt]
             data := [5, 0, 0, 0] } := by decide +kernel
  obtain ⟨statements, read, intact, means⟩ := checked
  obtain ⟨program, made⟩ :=
    Option.isSome_iff_exists.mp (by decide +kernel : (assemble countdownSource).toOption.isSome = true)
  have accepted := accepted_of_toOption made
  obtain ⟨others, read', said⟩ := image_means accepted
  obtain rfl : others = statements := Option.some.inj (read'.symm.trans read)
  obtain ⟨meaning, means', same⟩ := said intact
  obtain rfl := Option.some.inj (means'.symm.trans means)
  exact ⟨program, accepted, same⟩

end Source

end VirtualMachine
