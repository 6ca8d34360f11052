import VirtualMachine.Isa.Operation
import VirtualMachine.Assembler.DataAddressing

namespace VirtualMachine

open VirtualMachine.Parser

/-- How the value of a numeric operand is used. -/
inductive LiteralUse
  | operand (opcode : Opcode) (rd : RegisterIndex)
  | offset (access : DataAccess)
  /-- `exit` and `yield` ignore their argument. -/
  | unused (id : SyscallId)

namespace LiteralUse

/-- The whole instruction, with this value for its operand. -/
def perform (value : Word) (ctx : ExecutionContext) : LiteralUse → Except Exception Progress × ExecutionContext
  | .operand opcode rd => performOperation opcode rd (ctx.registers.get rd) value ctx
  | .offset access => access.perform value ctx
  | .unused id => finishHandle (some id) (SyscallHandler.handle (some id) value ctx)

/-- The value is the number: in two's complement for an operand, unsigned for an offset. -/
def Exact (n : Int) (value : Word) : LiteralUse → Prop
  | .operand _ _ => value.toInt = n
  | .offset _ => (value.toNat : Int) = n
  | .unused _ => True

/-- The numbers that come back from the immediate field. -/
def InRange (n : Int) : LiteralUse → Prop
  | .operand _ _ => -2048 ≤ n ∧ n ≤ 2047
  | .offset (.load _) | .offset (.store _) => 0 ≤ n ∧ n < 2048 ∨ 4294965248 ≤ n ∧ n < 4294967296
  | .offset .print | .offset .scan | .offset .path => 0 ≤ n ∧ n < 2048 ∨ 63488 ≤ n ∧ n < 65536
  | .unused _ => True

/-- The value that comes back. -/
def decoded (imm : BitVec 16) : LiteralUse → Word
  | .operand _ _ => signedField imm
  | .offset access => access.decoded (imm.signExtend 32)
  | .unused _ => unsignedField imm

/-- Widening and cutting again gives the number back. -/
theorem setWidth_signExtend (imm : BitVec 16) : (imm.signExtend 32).setWidth 16 = imm := by
  apply BitVec.eq_of_getLsbD_eq
  intro i bound
  rw [BitVec.getLsbD_setWidth, BitVec.getLsbD_signExtend]
  simp [bound, show i < 32 by omega]

/-- Which numbers come back depends on how they are used: as an operand, as an
offset, or not at all. -/
theorem exact_decoded_iff (n : Int) (use : LiteralUse) :
    use.Exact n (use.decoded (BitVec.ofInt 16 n)) ↔ use.InRange n := by
  cases use with
  | operand opcode rd => exact toInt_signedField_iff
  | offset access =>
    have same := setWidth_signExtend (BitVec.ofInt 16 n)
    have signed : ((signedField (((BitVec.ofInt 16 n).signExtend 32).setWidth 16)).toNat : Int) = n ↔
        0 ≤ n ∧ n < 2048 ∨ 4294965248 ≤ n ∧ n < 4294967296 := by
      rw [same]
      exact toNat_signedField_iff
    have unsigned : ((unsignedField (((BitVec.ofInt 16 n).signExtend 32).setWidth 16)).toNat : Int) = n ↔
        0 ≤ n ∧ n < 2048 ∨ 63488 ≤ n ∧ n < 65536 := by
      rw [same]
      exact toNat_unsignedField_iff
    cases access with
    | load rd => exact signed
    | store rd => exact signed
    | print => exact unsigned
    | scan => exact unsigned
    | path => exact unsigned
  | unused id => exact Iff.rfl

end LiteralUse

section Words

variable {ctx : ExecutionContext} {opcode : Opcode} {rd rs : Byte} {imm : BitVec 16}

/-- The word of an operation on a number. -/
def numberWord (opcode : Opcode) (rd : Byte) (imm : BitVec 16) : Word :=
  if opcode = .MOV then encodeMov rd kImmediateMarker imm
  else if opcode = .CMP then encodeRegImm opcode 0 rd imm
  else encodeRegImm opcode rd rd imm

/-- The word of an operation on a register. -/
def registerWord (opcode : Opcode) (rd rs : Byte) : Word :=
  if opcode = .MOV then encodeRegReg opcode rd rs rs else encodeRegReg opcode rd rd rs

/-- The marker in the place of the second register says that the operand is the
immediate. -/
theorem readOperand_immediate {opcode rd rs1 : Byte} :
    readOperand (decodeInstruction (encodeInstruction opcode rd rs1 kImmediateMarker imm)) ctx = signedField imm := by
  have marked : (kImmediateMarker.setWidth 4).setWidth 8 = kImmediateMarker := by decide
  rw [readOperand, decode_encode_rs2, if_pos marked, decode_encode_imm, signedField]

/-- Any other number in its place is that of a register. -/
theorem readOperand_register {opcode rd rs1 rs2 : Byte} (register : rs2.setWidth 4 ≠ (15 : RegisterIndex)) :
    readOperand (decodeInstruction (encodeInstruction opcode rd rs1 rs2 imm)) ctx =
      ctx.registers.get (rs2.setWidth 4) := by
  have unmarked : (rs2.setWidth 4).setWidth 8 ≠ kImmediateMarker := by
    intro marked
    refine register (BitVec.eq_of_toNat_eq ?_)
    have value := congrArg BitVec.toNat marked
    have bounded := (rs2.setWidth 4).isLt
    rw [BitVec.toNat_setWidth, Nat.mod_eq_of_lt (by omega)] at value
    exact value
  rw [readOperand, decode_encode_rs2, if_neg unmarked]

/-- The marker of an immediate operand is the number of the last register. -/
theorem readOperand_last {opcode rd rs1 rs2 : Byte} (last : rs2.setWidth 4 = (15 : RegisterIndex)) :
    readOperand (decodeInstruction (encodeInstruction opcode rd rs1 rs2 imm)) ctx = signedField imm := by
  have marked : ((15 : RegisterIndex).setWidth 8 : Byte) = kImmediateMarker := by decide
  rw [readOperand, decode_encode_rs2, last, if_pos marked, decode_encode_imm, signedField]

/-- A word with these fields performs its operation on them; `mov` and `push`
have no first operand, `cmp` and `push` no result. -/
theorem beginInstruction_fields {target rs1 rs2 : Byte} (operates : opcode.isOperation = true)
    (result : opcode = .CMP ∨ opcode = .PUSH ∨ target = rd) (left : opcode = .MOV ∨ opcode = .PUSH ∨ rs1 = rd)
    (fetched : ctx.fetch? = some (decodeInstruction (encodeInstruction opcode.toByte target rs1 rs2 imm))) :
    beginInstruction ctx = performOperation opcode (rd.setWidth 4) (ctx.registers.get (rd.setWidth 4))
      (readOperand (decodeInstruction (encodeInstruction opcode.toByte target rs1 rs2 imm)) ctx) ctx := by
  rw [beginInstruction_operation operates (decode_encode_opcode _ _ _ _ _) fetched, decode_encode_rd, decode_encode_rs1]
  by_cases push : opcode = .PUSH
  · subst push
    rfl
  have result := result.imp_right (fun other => other.resolve_left push)
  have left := left.imp_right (fun other => other.resolve_left push)
  rcases left with rfl | rfl
  · rcases result with impossible | rfl
    · cases impossible
    · rfl
  · rcases result with rfl | rfl <;> rfl

/-- So an operation on a number is performed on the sign-extended field, -/
theorem beginInstruction_numberWord (operates : opcode.isOperation = true)
    (fetched : ctx.fetch? = some (decodeInstruction (numberWord opcode rd imm))) :
    beginInstruction ctx =
      performOperation opcode (rd.setWidth 4) (ctx.registers.get (rd.setWidth 4)) (signedField imm) ctx := by
  unfold numberWord at fetched
  split at fetched
  · rename_i mov
    subst mov
    rw [beginInstruction_fields rfl (.inr (.inr rfl)) (.inl rfl) fetched, readOperand_immediate]
  · split at fetched
    · rename_i cmp
      subst cmp
      rw [beginInstruction_fields rfl (.inl rfl) (.inr (.inr rfl)) fetched, readOperand_immediate]
    · rw [beginInstruction_fields operates (.inr (.inr rfl)) (.inr (.inr rfl)) fetched, readOperand_immediate]

/-- and one on a register on its contents, or on the field if it is the last
register. -/
theorem beginInstruction_registerWord (operates : opcode.isOperation = true)
    (fetched : ctx.fetch? = some (decodeInstruction (registerWord opcode rd rs))) :
    beginInstruction ctx = performOperation opcode (rd.setWidth 4) (ctx.registers.get (rd.setWidth 4))
      (if rs.setWidth 4 = (15 : RegisterIndex) then 0 else ctx.registers.get (rs.setWidth 4)) ctx := by
  have value : ∀ target rs1 : Byte, readOperand (decodeInstruction (encodeRegReg opcode target rs1 rs)) ctx =
      if rs.setWidth 4 = (15 : RegisterIndex) then 0 else ctx.registers.get (rs.setWidth 4) := by
    intro target rs1
    by_cases last : rs.setWidth 4 = (15 : RegisterIndex)
    · rw [if_pos last, encodeRegReg, readOperand_last last]
      rfl
    · rw [if_neg last, encodeRegReg, readOperand_register last]
  unfold registerWord at fetched
  split at fetched
  · rename_i mov
    subst mov
    rw [← value rd rs]
    exact beginInstruction_fields rfl (.inr (.inr rfl)) (.inl rfl) fetched
  · rw [← value rd rd]
    exact beginInstruction_fields operates (.inr (.inr rfl)) (.inr (.inr rfl)) fetched

end Words

namespace Source

def operationOf? (mnemonic : Text) : Operand → Option (Opcode × Byte)
  | .register name => do
    let opcode ← opcode? mnemonic
    let rd ← register? name
    if opcode.isOperation ∧ opcode ≠ .PUSH then some (opcode, rd) else none
  | _ => none

/-- The system calls that take no notice of their argument. -/
def idleCallOf? (mnemonic : Text) : Operand → Option SyscallId
  | .name syscall =>
    if mnemonic ≠ "call".toList then none
    else if syscall = "exit".toList then some .Exit
    else if syscall = "yield".toList then some .Yield
    else none
  | _ => none

def useOf? (mnemonic : Text) (first : Operand) : Option LiteralUse :=
  match operationOf? mnemonic first with
  | some (opcode, rd) => some (.operand opcode (rd.setWidth 4))
  | none =>
    match accessOf? mnemonic first with
    | some access => some (.offset access)
    | none => (idleCallOf? mnemonic first).map LiteralUse.unused

/-- The instructions with a numeric operand, and what they do with it. -/
def Instruction.literalUse? (instruction : Instruction) : Option (LiteralUse × Text) :=
  match instruction.operands with
  | [.number literal] => if instruction.mnemonic = "push".toList then some (.operand .PUSH 0, literal) else none
  | [first, .number literal] => (useOf? instruction.mnemonic first).map (fun use => (use, literal))
  | _ => none

/-- The instructions with a register for their last operand: what they do with
its contents, and the two registers. -/
def Instruction.registerOperation? (instruction : Instruction) : Option (Opcode × RegisterIndex × RegisterIndex) :=
  match instruction.operands with
  | [.register name] =>
    if instruction.mnemonic = "push".toList then
      (register? name).map (fun rs => (.PUSH, rs.setWidth 4, rs.setWidth 4))
    else none
  | [first, .register name] => do
    let (opcode, rd) ← operationOf? instruction.mnemonic first
    let rs ← register? name
    return (opcode, rd.setWidth 4, rs.setWidth 4)
  | _ => none

variable {ctx : ExecutionContext} {parser : Parser} {mnemonic : Text} {first operand : Operand} {opcode : Opcode}
  {rd : Byte}

theorem operationOf?_eq_some (found : operationOf? mnemonic first = some (opcode, rd)) :
    ∃ name, first = .register name ∧ opcode? mnemonic = some opcode ∧ register? name = some rd ∧
      opcode.isOperation = true ∧ opcode ≠ .PUSH := by
  cases first with
  | register name =>
    obtain ⟨opcode', known, found⟩ := Option.bind_eq_some_iff.mp found
    obtain ⟨rd', register, found⟩ := Option.bind_eq_some_iff.mp found
    split at found
    · rename_i operates
      cases found
      exact ⟨name, rfl, known, register, operates⟩
    · cases found
  | number literal => cases found
  | name syscall => cases found
  | memory symbol => cases found

/-- The word that the assembler makes of an operation. -/
theorem word_of_operation (found : operationOf? mnemonic first = some (opcode, rd)) :
    Instruction.word? true parser ⟨mnemonic, [first, operand]⟩ = operationWord? true parser opcode rd operand := by
  obtain ⟨name, rfl, known, register, operates, _⟩ := operationOf?_eq_some found
  have apart : mnemonic ≠ "call".toList := by
    rintro rfl
    cases known
  have noTransfer : ¬ (opcode = .LOAD ∨ opcode = .STORE) := by
    rintro (rfl | rfl) <;> cases operates
  rw [word_of_transfer known apart register, if_neg noTransfer]

theorem immediate?_eq_some {literal : Text} {imm : BitVec 16} (read : immediate? literal = some imm) :
    imm = BitVec.ofInt 16 (literalValue literal) := by
  obtain ⟨value, found, rfl⟩ := Option.map_eq_some_iff.mp read
  unfold stol stringToInteger at found
  split at found
  · cases found
  · split at found
    · cases found
    · cases found
      rfl

/-- The three ways to use a number: in an operation, as an offset, or in a system
call that takes no notice of it. -/
theorem useOf?_cases {use : LiteralUse} (uses : useOf? mnemonic first = some use) :
    (∃ opcode rd, operationOf? mnemonic first = some (opcode, rd) ∧ use = .operand opcode (rd.setWidth 4)) ∨
      (∃ access, accessOf? mnemonic first = some access ∧ use = .offset access) ∨
      ∃ id, idleCallOf? mnemonic first = some id ∧ use = .unused id := by
  unfold useOf? at uses
  split at uses
  · rename_i opcode rd found
    cases uses
    exact .inl ⟨opcode, rd, found, rfl⟩
  · split at uses
    · rename_i access found
      cases uses
      exact .inr (.inl ⟨access, found, rfl⟩)
    · obtain ⟨id, found, rfl⟩ := Option.map_eq_some_iff.mp uses
      exact .inr (.inr ⟨id, found, rfl⟩)

theorem word_of_idleCall {id : SyscallId} (idle : idleCallOf? mnemonic first = some id) :
    Instruction.word? true parser ⟨mnemonic, [first, operand]⟩ = (offset? parser operand).map (encodeCall id) := by
  unfold idleCallOf? at idle
  split at idle
  · split at idle
    · cases idle
    · rename_i _ isCall
      obtain rfl := of_not_not isCall
      split at idle
      · rename_i exit
        subst exit
        cases idle
        exact word_of_call rfl
      · split at idle
        · rename_i yield
          subst yield
          cases idle
          exact word_of_call rfl
        · cases idle
  · cases idle

variable {instruction : Instruction} {use : LiteralUse} {literal : Text} {word : Word}

/-- The word of an instruction with a number does what the instruction says,
with the number that comes back from the immediate field. -/
theorem beginInstruction_of_literalUse (uses : instruction.literalUse? = some (use, literal))
    (made : instruction.word? true parser = some word) (fetched : ctx.fetch? = some (decodeInstruction word)) :
    beginInstruction ctx = use.perform (use.decoded (BitVec.ofInt 16 (literalValue literal))) ctx := by
  obtain ⟨mnemonic, operands⟩ := instruction
  unfold Instruction.literalUse? at uses
  dsimp only at uses
  split at uses
  · split at uses
    · rename_i push
      subst push
      cases uses
      have pushed : (immediate? literal).map (encodeRegImm .PUSH 0 0) = some word := made
      obtain ⟨imm, read, rfl⟩ := Option.map_eq_some_iff.mp pushed
      rw [← immediate?_eq_some read]
      have whole : ctx.fetch? = some (decodeInstruction (numberWord .PUSH 0 imm)) := fetched
      exact beginInstruction_numberWord rfl whole
    · cases uses
  · rename_i first number
    obtain ⟨use', found, same⟩ := Option.map_eq_some_iff.mp uses
    cases same
    rcases useOf?_cases found with ⟨opcode, rd, operation, rfl⟩ | ⟨access, accesses, rfl⟩ | ⟨id, idle, rfl⟩
    · obtain ⟨_, _, _, _, operates, _⟩ := operationOf?_eq_some operation
      rw [word_of_operation operation] at made
      have operated : (immediate? literal).map (numberWord opcode rd) = some word := made
      obtain ⟨imm, read, rfl⟩ := Option.map_eq_some_iff.mp operated
      rw [← immediate?_eq_some read]
      exact beginInstruction_numberWord operates fetched
    · rw [word_of_access accesses] at made
      obtain ⟨offset, found, rfl⟩ := Option.map_eq_some_iff.mp made
      obtain ⟨imm, read, rfl⟩ := Option.map_eq_some_iff.mp found
      rw [← immediate?_eq_some read]
      exact DataAccess.beginInstruction_encode fetched
    · rw [word_of_idleCall idle] at made
      obtain ⟨offset, found, rfl⟩ := Option.map_eq_some_iff.mp made
      obtain ⟨imm, read, rfl⟩ := Option.map_eq_some_iff.mp found
      have call : (decodeInstruction (encodeCall id (imm.signExtend 32))).opcode = Opcode.CALL.toByte :=
        decode_encode_opcode _ _ _ _ _
      rw [← immediate?_eq_some read, beginInstruction_of_fetch fetched, if_pos call, DataAccess.executeCall_encodeCall,
        LiteralUse.setWidth_signExtend]
      rfl
  · cases uses

/-- The operations with a number for their operand. -/
theorem isOperation_of_literalUse {rd : RegisterIndex}
    (uses : instruction.literalUse? = some (.operand opcode rd, literal)) :
    opcode.isOperation = true := by
  unfold Instruction.literalUse? at uses
  split at uses
  · split at uses
    · cases uses
      rfl
    · cases uses
  · obtain ⟨use', found, same⟩ := Option.map_eq_some_iff.mp uses
    cases same
    rcases useOf?_cases found with ⟨opcode, rd, operation, same⟩ | ⟨access, _, impossible⟩ | ⟨id, _, impossible⟩
    · cases same
      obtain ⟨_, _, _, _, operates, _⟩ := operationOf?_eq_some operation
      exact operates
    · cases impossible
    · cases impossible
  · cases uses

/-- The word of an instruction with a register does what the instruction says,
if the register is not the last one. -/
theorem beginInstruction_of_registerOperation {rd rs : RegisterIndex}
    (operates : instruction.registerOperation? = some (opcode, rd, rs))
    (made : instruction.word? true parser = some word)
    (fetched : ctx.fetch? = some (decodeInstruction word)) :
    opcode.isOperation = true ∧ beginInstruction ctx = performOperation opcode rd (ctx.registers.get rd)
      (if rs = 15 then 0 else ctx.registers.get rs) ctx := by
  obtain ⟨mnemonic, operands⟩ := instruction
  unfold Instruction.registerOperation? at operates
  dsimp only at operates
  split at operates
  · split at operates
    · rename_i name push
      subst push
      obtain ⟨register, read, same⟩ := Option.map_eq_some_iff.mp operates
      cases same
      have pushed : (register? name).map (fun rd => encodeRegReg .PUSH rd rd rd) = some word := made
      rw [read, Option.map_some] at pushed
      cases pushed
      exact ⟨rfl, beginInstruction_registerWord rfl fetched⟩
    · cases operates
  · rename_i first name
    obtain ⟨⟨opcode', rd'⟩, operation, found⟩ := Option.bind_eq_some_iff.mp operates
    obtain ⟨rs', read, same⟩ := Option.bind_eq_some_iff.mp found
    cases same
    obtain ⟨_, _, _, _, operates', _⟩ := operationOf?_eq_some operation
    rw [word_of_operation operation] at made
    have operated : (register? name).map (registerWord opcode' rd') = some word := made
    rw [read, Option.map_some] at operated
    cases operated
    exact ⟨operates', beginInstruction_registerWord operates' fetched⟩
  · cases operates

/-- The use of a number shows it, unless it is not used at all. -/
theorem eq_of_perform {value value' : Word} (uses : instruction.literalUse? = some (use, literal))
    (same : ∀ ctx : ExecutionContext, ctx.fetch? = some (decodeInstruction word) →
      use.perform value ctx = use.perform value' ctx) : value = value' ∨ ∃ id, use = .unused id := by
  cases use with
  | operand opcode rd =>
    have agree : ∀ lhs : Word, ∃ gpr, performOperation opcode rd lhs value (operandProbe word gpr) =
        performOperation opcode rd lhs value' (operandProbe word gpr) := by
      intro lhs
      exact ⟨fun _ => lhs, same (operandProbe word (fun _ => lhs)) operandProbe_fetch⟩
    exact .inl (rhs_of_performOperation (isOperation_of_literalUse uses) agree)
  | offset access => exact .inl (DataAccess.eq_of_perform same)
  | unused id => exact .inr ⟨id, rfl⟩

section Words

variable {source : Text} {program : AssembledProgram} {statements : List Statement} {k : Nat}

/-- One instruction of an accepted source. -/
theorem Assembled.literal_exact_iff {first second : Parser}
    (assembled : Assembled source program statements first second)
    (found : (instructions statements)[k]? = some instruction) (uses : instruction.literalUse? = some (use, literal)) :
    (∃ word value, program.code[k]? = some word ∧ use.Exact (literalValue literal) value ∧
        ∀ ctx : ExecutionContext, ctx.fetch? = some (decodeInstruction word) →
          beginInstruction ctx = use.perform value ctx) ↔
      use.InRange (literalValue literal) := by
  obtain ⟨before, later, middle, word, _, _, _, made, placed⟩ := assembled.word found
  rw [← LiteralUse.exact_decoded_iff]
  constructor
  · rintro ⟨word', value, placed', exactly_, executes⟩
    obtain rfl : word = word' := Option.some.inj (placed.symm.trans placed')
    have same : ∀ ctx : ExecutionContext, ctx.fetch? = some (decodeInstruction word) →
        use.perform value ctx = use.perform (use.decoded (BitVec.ofInt 16 (literalValue literal))) ctx := by
      intro ctx fetched
      rw [← executes ctx fetched, beginInstruction_of_literalUse uses made fetched]
    rcases eq_of_perform uses same with equal | ⟨id, rfl⟩
    · rw [← equal]
      exact exactly_
    · trivial
  · intro exactly_
    exact ⟨word, _, placed, exactly_, fun ctx fetched => beginInstruction_of_literalUse uses made fetched⟩

/-- Executing an instruction with a number uses exactly the number if and only
if the number fits the immediate field, for the way it is widened again. -/
theorem literal_operand_exact_iff (accepted : assemble source = .ok program)
    (read : Source.read source = some statements)
    (found : (instructions statements)[k]? = some instruction) (uses : instruction.literalUse? = some (use, literal)) :
    (∃ word value, program.code[k]? = some word ∧ use.Exact (literalValue literal) value ∧
        ∀ ctx : ExecutionContext, ctx.fetch? = some (decodeInstruction word) →
          beginInstruction ctx = use.perform value ctx) ↔
      use.InRange (literalValue literal) := by
  obtain ⟨first, second, assembled⟩ := exists_assembled_of_read accepted read
  exact assembled.literal_exact_iff found uses

def movMinusSeven : Text := "CODE:\nmov r1, -7".toList

def movMinusSevenProgram : AssembledProgram := { code := [encodeMov 1 kImmediateMarker (-7)] }

/-- The number of this instruction is used exactly. -/
theorem literal_operand_exact_movMinusSeven :
    ∃ word value, movMinusSevenProgram.code[0]? = some word ∧ (LiteralUse.operand .MOV 1).Exact (-7) value ∧
      ∀ ctx : ExecutionContext, ctx.fetch? = some (decodeInstruction word) →
        beginInstruction ctx = (LiteralUse.operand .MOV 1).perform value ctx := by
  have accepted : assemble movMinusSeven = .ok movMinusSevenProgram := accepted_of_toOption (by decide +kernel)
  have read : Source.read movMinusSeven =
      some [.openSection .Code, .instruction ⟨"mov".toList, [.register "r1".toList, .number "-7".toList]⟩] := by
    decide +kernel
  have uses : Instruction.literalUse? ⟨"mov".toList, [.register "r1".toList, .number "-7".toList]⟩ =
      some (.operand .MOV 1, "-7".toList) := rfl
  have inRange : (LiteralUse.operand .MOV 1).InRange (-7) := ⟨by decide, by decide⟩
  exact (literal_operand_exact_iff accepted read rfl uses).mpr inRange

/-- A number of thirteen bits. -/
def movFiveThousand : Text := "CODE:\nmov r0, 5000\nhalt".toList

theorem literal_operand_exact_fails_for_movFiveThousand :
    ¬ ∀ (source : Text) (program : AssembledProgram) (statements : List Statement) (k : Nat) (instruction : Instruction)
        (use : LiteralUse) (literal : Text), assemble source = .ok program → Source.read source = some statements →
        (instructions statements)[k]? = some instruction → instruction.literalUse? = some (use, literal) →
        ∃ word value, program.code[k]? = some word ∧ use.Exact (literalValue literal) value ∧
          ∀ ctx : ExecutionContext, ctx.fetch? = some (decodeInstruction word) →
            beginInstruction ctx = use.perform value ctx := by
  intro exactly_
  have accepted : assemble movFiveThousand =
      .ok { code := [encodeMov 0 kImmediateMarker 5000, encodeInstruction Opcode.HALT.toByte 0 0 0 0] } :=
    accepted_of_toOption (by decide +kernel)
  have read : Source.read movFiveThousand =
      some [.openSection .Code, .instruction ⟨"mov".toList, [.register "r0".toList, .number "5000".toList]⟩,
        .instruction ⟨"halt".toList, []⟩] := by
    decide +kernel
  obtain ⟨first, second, assembled⟩ := exists_assembled_of_read accepted read
  have all := exactly_ _ _ _ 0 _ (.operand .MOV 0) "5000".toList accepted read rfl rfl
  have inRange : (LiteralUse.operand .MOV 0).InRange 5000 := (assembled.literal_exact_iff rfl rfl).mp all
  exact absurd inRange.2 (by decide)

/-- One instruction of an accepted source, with a register for its last operand. -/
theorem Assembled.register_used_iff {first second : Parser}
    (assembled : Assembled source program statements first second)
    {opcode : Opcode} {rd rs : RegisterIndex} (found : (instructions statements)[k]? = some instruction)
    (operates : instruction.registerOperation? = some (opcode, rd, rs)) :
    (∃ word, program.code[k]? = some word ∧ ∀ ctx : ExecutionContext, ctx.fetch? = some (decodeInstruction word) →
        beginInstruction ctx = performOperation opcode rd (ctx.registers.get rd) (ctx.registers.get rs) ctx) ↔
      rs ≠ 15 ∨ opcode = .OR ∧ rd = 15 := by
  obtain ⟨before, later, middle, word, _, _, _, made, placed⟩ := assembled.word found
  constructor
  · rintro ⟨word', placed', executes⟩
    obtain rfl : word = word' := Option.some.inj (placed.symm.trans placed')
    by_contra neither
    obtain ⟨last, other⟩ := not_or.mp neither
    obtain rfl := of_not_not last
    have fetched : (operandProbe word (fun _ => 0)).fetch? = some (decodeInstruction word) := operandProbe_fetch
    have operation : opcode.isOperation = true := (beginInstruction_of_registerOperation operates made fetched).1
    have same : ∀ ctx : ExecutionContext, ctx.fetch? = some (decodeInstruction word) →
        performOperation opcode rd (ctx.registers.get rd) 0 ctx =
          performOperation opcode rd (ctx.registers.get rd) (ctx.registers.get 15) ctx := by
      intro ctx fetched
      rw [← executes ctx fetched, (beginInstruction_of_registerOperation operates made fetched).2, if_pos rfl]
    by_cases both : rd = 15
    · subst both
      have different : opcode ≠ .OR := fun or_ => other ⟨or_, rfl⟩
      exact performOperation_one_ne operation different (same (operandProbe word (fun _ => 1)) operandProbe_fetch)
    · -- With 1 in the last register and any value in `rd`, 0 is another operand.
      have agree : ∀ lhs : Word, ∃ gpr, performOperation opcode rd lhs 0 (operandProbe word gpr) =
          performOperation opcode rd lhs 1 (operandProbe word gpr) := by
        intro lhs
        refine ⟨Function.update (fun _ => lhs) 15 1, ?_⟩
        have one := same (operandProbe word (Function.update (fun _ => lhs) 15 1)) operandProbe_fetch
        have left : (operandProbe word (Function.update (fun _ => lhs) 15 1)).registers.get rd = lhs :=
          Function.update_of_ne both 1 (fun _ => lhs)
        have right : (operandProbe word (Function.update (fun _ => lhs) 15 1)).registers.get 15 = 1 := by
          change Function.update (fun _ => lhs) (15 : RegisterIndex) (1 : Word) 15 = 1
          exact Function.update_self _ _ _
        rw [left, right] at one
        exact one
      exact absurd (rhs_of_performOperation operation agree) (by decide)
  · intro condition
    refine ⟨word, placed, fun ctx fetched => ?_⟩
    rw [(beginInstruction_of_registerOperation operates made fetched).2]
    by_cases last : rs = 15
    · rcases condition with other | ⟨rfl, rfl⟩
      · exact absurd last other
      · subst last
        have same : ctx.registers.get 15 ||| ctx.registers.get 15 = ctx.registers.get 15 ||| 0 := by
          rw [BitVec.or_self]
          exact BitVec.or_zero.symm
        rw [if_pos rfl, performOperation, performOperation, operation, operation, same]
    · rw [if_neg last]

/-- Executing an instruction with a register for its last operand uses the
contents of the register if and only if it is not the last register, whose
number marks an immediate. Numbers are never taken for registers. -/
theorem register_operand_used_iff (accepted : assemble source = .ok program)
    (read : Source.read source = some statements) :
    (∀ (k : Nat) (instruction : Instruction) (opcode : Opcode) (rd rs : RegisterIndex),
        (instructions statements)[k]? = some instruction → instruction.registerOperation? = some (opcode, rd, rs) →
        ((∃ word, program.code[k]? = some word ∧ ∀ ctx : ExecutionContext, ctx.fetch? = some (decodeInstruction word) →
            beginInstruction ctx = performOperation opcode rd (ctx.registers.get rd) (ctx.registers.get rs) ctx) ↔
          rs ≠ 15 ∨ opcode = .OR ∧ rd = 15)) ∧
      ∀ (k : Nat) (instruction : Instruction) (use : LiteralUse) (literal : Text),
        (instructions statements)[k]? = some instruction → instruction.literalUse? = some (use, literal) →
        ∃ word value, program.code[k]? = some word ∧ ∀ ctx : ExecutionContext,
          ctx.fetch? = some (decodeInstruction word) → beginInstruction ctx = use.perform value ctx := by
  obtain ⟨first, second, assembled⟩ := exists_assembled_of_read accepted read
  refine ⟨fun k instruction opcode rd rs found operates => assembled.register_used_iff found operates, ?_⟩
  intro k instruction use literal found uses
  obtain ⟨before, later, middle, word, _, _, _, made, placed⟩ := assembled.word found
  exact ⟨word, _, placed, fun ctx fetched => beginInstruction_of_literalUse uses made fetched⟩

def addRegisters : Text := "CODE:\nadd r1, r14\npush 5".toList

/-- The register of this instruction is used. -/
theorem register_operand_used_addRegisters :
    ∃ word, (⟨[encodeRegReg .ADD 1 1 14, encodeRegImm .PUSH 0 0 5], []⟩ : AssembledProgram).code[0]? = some word ∧
      ∀ ctx : ExecutionContext, ctx.fetch? = some (decodeInstruction word) →
        beginInstruction ctx = performOperation .ADD 1 (ctx.registers.get 1) (ctx.registers.get 14) ctx := by
  have accepted : assemble addRegisters = .ok ⟨[encodeRegReg .ADD 1 1 14, encodeRegImm .PUSH 0 0 5], []⟩ :=
    accepted_of_toOption (by decide +kernel)
  have read : Source.read addRegisters =
      some [.openSection .Code, .instruction ⟨"add".toList, [.register "r1".toList, .register "r14".toList]⟩,
        .instruction ⟨"push".toList, [.number "5".toList]⟩] := by
    decide +kernel
  exact ((register_operand_used_iff accepted read).1 0 _ .ADD 1 14 rfl rfl).mpr (.inl (by decide))

/-- The register whose number is that of the marker. -/
def movLast : Text := "CODE:\nmov r0, r15\nhalt".toList

theorem register_operand_used_fails_for_movLast :
    ¬ ∀ (source : Text) (program : AssembledProgram) (statements : List Statement), assemble source = .ok program →
        Source.read source = some statements →
        ∀ (k : Nat) (instruction : Instruction) (opcode : Opcode) (rd rs : RegisterIndex),
          (instructions statements)[k]? = some instruction → instruction.registerOperation? = some (opcode, rd, rs) →
          ∃ word, program.code[k]? = some word ∧ ∀ ctx : ExecutionContext, ctx.fetch? = some (decodeInstruction word) →
            beginInstruction ctx = performOperation opcode rd (ctx.registers.get rd) (ctx.registers.get rs) ctx := by
  intro used
  have accepted : assemble movLast =
      .ok ⟨[encodeRegReg .MOV 0 15 15, encodeInstruction Opcode.HALT.toByte 0 0 0 0], []⟩ :=
    accepted_of_toOption (by decide +kernel)
  have read : Source.read movLast =
      some [.openSection .Code, .instruction ⟨"mov".toList, [.register "r0".toList, .register "r15".toList]⟩,
        .instruction ⟨"halt".toList, []⟩] := by
    decide +kernel
  obtain ⟨first, second, assembled⟩ := exists_assembled_of_read accepted read
  have all := used _ _ _ accepted read 0 _ .MOV 0 15 rfl rfl
  rcases (assembled.register_used_iff rfl rfl).mp all with other | ⟨impossible, _⟩
  · exact other rfl
  · cases impossible

end Words

end Source

end VirtualMachine
