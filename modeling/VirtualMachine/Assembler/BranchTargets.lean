import VirtualMachine.Assembler.Operands
import VirtualMachine.StackDiscipline

namespace VirtualMachine

open VirtualMachine.Parser TransitionSystem StackMove

/-- The ways to name a label: a jump, or a `push` for a later return. -/
inductive Branch
  | jump (opcode : Opcode)
  | push
  deriving DecidableEq, Repr

/-- The jump goes to its target here. -/
def ExecutionContext.TakesJump (opcode : Opcode) (ctx : ExecutionContext) : Prop :=
  opcode = .JMP ∨ takeJump ctx.registers.flags opcode.toByte = true

/-- Every taken jump by this word sets PC to the target. -/
def JumpsTo (opcode : Opcode) (word : Word) (target : Nat) : Prop :=
  ∀ ctx : ExecutionContext, ctx.fetch? = some (decodeInstruction word) → ctx.TakesJump opcode →
    (beginInstruction ctx).1 = .ok (.finished .Jump) ∧ (beginInstruction ctx).2.registers.pc.toNat = target

/-- Every return that matches a push by this word, in a run in which nobody
else writes to the stack, sets PC to the target. -/
def ReturnsTo (word : Word) (target : Nat) : Prop :=
  ∀ (ctx atReturn : ExecutionContext) (steps : List ProcessStep) (value : Word) (middle : List (StackMove Word))
    (instruction : DecodedInstruction), ctx.StackSound → ctx.fetch? = some (decodeInstruction word) →
    Guarded ExecutionContext.processStep ExecutionContext.StackUntouched ctx steps →
    run ExecutionContext.processStep ctx steps = some atReturn →
    ctx.stackTrace steps = .push value :: middle → WellBracketed middle →
    atReturn.fetch? = some instruction → instruction.opcode = Opcode.RET.toByte →
    (beginInstruction atReturn).1 = .ok (.finished .Jump) →
    (beginInstruction atReturn).2.registers.pc.toNat = target

/-- What it is for a word to go to an index of the code, for either kind of branch. -/
def Branch.GoesTo (word : Word) (target : Nat) : Branch → Prop
  | .jump opcode => JumpsTo opcode word target
  | .push => ReturnsTo word target

/-- The word of a branch to an address. -/
def Branch.encode (address : Address) : Branch → Word
  | .jump opcode => encodeJump opcode address
  | .push => encodeRegImm .PUSH 0 0 (address.setWidth 16)

section Jumps

variable {ctx : ExecutionContext} {opcode : Opcode} {address : Address}

/-- A taken jump sets PC to the sign-extended field of its word and does nothing
else but use up the time slice. -/
theorem beginInstruction_encodeJump (jump : isJump opcode = true)
    (fetched : ctx.fetch? = some (decodeInstruction (encodeJump opcode address))) (taken : ctx.TakesJump opcode) :
    beginInstruction ctx = finishExecute
      (.ok .Jump, ctx.withRegisters (ctx.registers.setPc (signedField (address.setWidth 16)))) := by
  have is : (decodeInstruction (encodeJump opcode address)).opcode = opcode.toByte := decode_encode_opcode _ _ _ _ _
  have registered : (decodeInstruction (encodeJump opcode address)).opcode ≠ Opcode.CALL.toByte := by
    rw [is]
    intro same
    rw [Opcode.toByte_injective same] at jump
    cases jump
  have imm : (decodeInstruction (encodeJump opcode address)).imm = ((address.setWidth 16).setWidth 12).signExtend 16 :=
    decode_encode_imm _ _ _ _ _
  have conditional : InstructionRegistry.handlers opcode = some conditionalJumpHandler →
      takeJump ctx.registers.flags opcode.toByte = true →
        InstructionRegistry.execute (decodeInstruction (encodeJump opcode address)) ctx =
        (.ok .Jump, ctx.withRegisters (ctx.registers.setPc (signedField (address.setWidth 16)))) := by
    intro handler takes
    rw [InstructionRegistry.execute_of_opcode is handler, conditionalJumpHandler, is, if_pos takes, imm]
    rfl
  rw [beginInstruction_of_fetch fetched, if_neg registered]
  congr 1
  by_cases always : opcode = .JMP
  · subst always
    rw [InstructionRegistry.execute_of_opcode is rfl, jmpHandler, imm]
    rfl
  · have takes := taken.resolve_left always
    cases opcode
    case JE => exact conditional rfl takes
    case JNE => exact conditional rfl takes
    case JG => exact conditional rfl takes
    case JGE => exact conditional rfl takes
    case JL => exact conditional rfl takes
    case JLE => exact conditional rfl takes
    case JMP => exact absurd rfl always
    all_goals cases jump

/-- A context with these flags and a word to execute. -/
def jumpProbe (word : Word) (flags : CpuFlags) : ExecutionContext :=
  ExecutionContext.facing
    { process := { id := 0, layout := {}, context := { registers := { flags := flags } } }, physical := {} } word

/-- The probe executes the word. -/
theorem jumpProbe_fetch {word : Word} {flags : CpuFlags} :
    (jumpProbe word flags).fetch? = some (decodeInstruction word) := by
  refine ExecutionContext.fetch?_facing word ?_
  change 4 ≤ 1048576
  decide

/-- Every jump is taken with some flags. -/
theorem exists_takesJump (jump : isJump opcode = true) (word : Word) :
    ∃ flags, (jumpProbe word flags).TakesJump opcode := by
  cases opcode
  case JMP => exact ⟨{}, .inl rfl⟩
  case JE => exact ⟨{ zero := true }, .inr rfl⟩
  case JNE => exact ⟨{}, .inr rfl⟩
  case JG => exact ⟨{}, .inr rfl⟩
  case JGE => exact ⟨{}, .inr rfl⟩
  case JL => exact ⟨{ sign := true }, .inr rfl⟩
  case JLE => exact ⟨{ zero := true }, .inr rfl⟩
  all_goals cases jump

/-- So a jump goes to its target exactly if the field gives the target back. The
probe turns the statement about every context into one about the field. -/
theorem jumpsTo_iff (jump : isJump opcode = true) (target : Nat) :
    JumpsTo opcode (encodeJump opcode address) target ↔ (signedField (address.setWidth 16)).toNat = target := by
  constructor
  · intro jumps
    obtain ⟨flags, taken⟩ := exists_takesJump jump (encodeJump opcode address)
    have goes := (jumps _ jumpProbe_fetch taken).2
    rw [beginInstruction_encodeJump jump jumpProbe_fetch taken] at goes
    exact goes
  · intro same ctx fetched taken
    rw [beginInstruction_encodeJump jump fetched taken]
    exact ⟨rfl, same⟩

end Jumps

namespace ExecutionContext

variable {ctx reached : ExecutionContext} {instruction : DecodedInstruction}

/-- The pushes and pops of a run are those of its parts, in order. -/
theorem stackTrace_run {steps later : List ProcessStep} (ran : run processStep ctx steps = some reached) :
    ctx.stackTrace (steps ++ later) = ctx.stackTrace steps ++ reached.stackTrace later := by
  induction steps generalizing ctx with
  | nil =>
    cases ran
    rfl
  | cons action steps ih =>
    obtain ⟨next, taken, rest⟩ := run_cons_iff.mp ran
    cases taken
    rw [List.cons_append, stackTrace, stackTrace, ih rest, List.cons_append]

/-- What a `push` puts on the stack is its operand. -/
theorem stackMove_push {value : Word} (fetched : ctx.fetch? = some instruction)
    (is : instruction.opcode = Opcode.PUSH.toByte) (moved : ctx.stackMove = .push value) :
    value = readOperand instruction ctx := by
  have known : Opcode.ofByte? instruction.opcode = some .PUSH := by rw [is, Opcode.ofByte?_toByte]
  unfold stackMove at moved
  rw [fetched] at moved
  dsimp only at moved
  unfold moveOf at moved
  dsimp only at moved
  rw [known] at moved
  dsimp only at moved
  split at moved
  · cases moved
    rfl
  · cases moved

/-- A `push` that succeeds is a push of its operand. -/
theorem stackMove_of_push (fetched : ctx.fetch? = some instruction) (is : instruction.opcode = Opcode.PUSH.toByte)
    (pushed : Progress.Returns .Continue (beginInstruction ctx).1) :
    ctx.stackMove = .push (readOperand instruction ctx) := by
  have known : Opcode.ofByte? instruction.opcode = some .PUSH := by rw [is, Opcode.ofByte?_toByte]
  unfold stackMove
  rw [fetched]
  dsimp only
  unfold moveOf
  dsimp only
  rw [known]
  exact if_pos pushed

/-- A `ret` takes from the stack the word that PC has afterwards. -/
theorem stackMove_return (fetched : ctx.fetch? = some instruction) (is : instruction.opcode = Opcode.RET.toByte)
    (returns : (beginInstruction ctx).1 = .ok (.finished .Jump)) :
    ctx.stackMove = .pop (beginInstruction ctx).2.registers.pc := by
  have known : Opcode.ofByte? instruction.opcode = some .RET := by rw [is, Opcode.ofByte?_toByte]
  have jumped : Progress.Returns .Jump (beginInstruction ctx).1 := by
    rw [returns]
    rfl
  unfold stackMove
  rw [fetched]
  dsimp only
  unfold moveOf
  dsimp only
  rw [known]
  exact if_pos jumped

end ExecutionContext

section Returns

variable {imm : BitVec 16}

/-- A `push` of a label pushes the sign-extended field of its word. -/
theorem beginInstruction_pushWord {ctx : ExecutionContext}
    (fetched : ctx.fetch? = some (decodeInstruction (encodeRegImm .PUSH 0 0 imm))) :
    beginInstruction ctx = finishExecute ((ctx.pushEffect (signedField imm)).apply ctx) := by
  have whole : ctx.fetch? = some (decodeInstruction (numberWord .PUSH 0 imm)) := fetched
  exact beginInstruction_numberWord rfl whole

/-- A context that pushes a word and then returns. -/
def returnProbe (word : Word) : ExecutionContext :=
  ExecutionContext.facing
    { process :=
        { id := 0
          layout := { codeSize := 8, dataOffset := 8, stackOffset := 8 }
          context := { registers := { sp := 12 } } }
      physical := PhysicalMemory.putWord {} 4 (encodeInstruction Opcode.RET.toByte 0 0 0 0) } word

/-- The probe executes the word first, with a `ret` in the cell behind it and room
for one word on the stack. -/
theorem returnProbe_fetch {word : Word} : (returnProbe word).fetch? = some (decodeInstruction word) := by
  refine ExecutionContext.fetch?_facing word ?_
  change 4 ≤ 1048576
  decide

theorem returnProbe_sound (word : Word) : (returnProbe word).StackSound := by
  have bounded : 0 + 8 + 0 + kStackSize < 2 ^ 32 := by decide
  have packed : (returnProbe word).process.layout.Packed := ⟨rfl, rfl, rfl, bounded⟩
  have above : 8 ≤ 12 := by decide
  have below : 12 ≤ 8 + kStackSize := by decide
  have aligned : 4 ∣ 12 - 8 := by decide
  exact ⟨packed, above, below, aligned⟩

/-- The probe after its push. -/
def pushedProbe (word value : Word) : ExecutionContext :=
  (((returnProbe word).withPhysical ((returnProbe word).physical.putWord 8 value)).withRegisters
    ((returnProbe word).registers.setSp 8).advancePc).useTimeSlice

/-- The push succeeds there. -/
theorem returnProbe_push :
    beginInstruction (returnProbe (encodeRegImm .PUSH 0 0 imm)) =
      (.ok (.finished .Continue), pushedProbe (encodeRegImm .PUSH 0 0 imm) (signedField imm)) := by
  have room : (returnProbe (encodeRegImm .PUSH 0 0 imm)).memory.canPush
    (returnProbe (encodeRegImm .PUSH 0 0 imm)).registers.sp = true :=
    rfl
  have inMemory : (returnProbe (encodeRegImm .PUSH 0 0 imm)).registers.sp.toNat ≤
      (returnProbe (encodeRegImm .PUSH 0 0 imm)).physical.size := by
    change 12 ≤ 1048576
    decide
  have lower : (returnProbe (encodeRegImm .PUSH 0 0 imm)).registers.sp - 4 = 8 := by
    change (12 : Address) - 4 = 8
    decide
  rw [beginInstruction_pushWord returnProbe_fetch, ExecutionContext.pushEffect, if_pos room, if_pos inMemory, lower]
  rfl

theorem pushedProbe_fetch (word value : Word) :
    (pushedProbe word value).fetch? = some (decodeInstruction (encodeInstruction Opcode.RET.toByte 0 0 0 0)) := by
  have inside : (pushedProbe word value).fetchAddress.toNat + 4 ≤ (pushedProbe word value).physical.size := by
    change 8 ≤ 1048576
    decide
  have address : (pushedProbe word value).fetchAddress = 4 := rfl
  have code : (pushedProbe word value).physical.wordAt 4 = encodeInstruction Opcode.RET.toByte 0 0 0 0 := by
    have physical : (pushedProbe word value).physical = (PhysicalMemory.putWord
        (PhysicalMemory.putWord (PhysicalMemory.putWord {} 4 (encodeInstruction Opcode.RET.toByte 0 0 0 0)) 0 word) 8
          value) := rfl
    rw [physical, PhysicalMemory.wordAt_putWord_disjoint (by decide),
      PhysicalMemory.wordAt_putWord_disjoint (by decide),
      PhysicalMemory.wordAt_putWord_same]
  rw [ExecutionContext.fetch?, if_pos inside, address, code]

/-- And the `ret` takes the pushed word into PC. -/
theorem pushedProbe_return (word value : Word) :
    (beginInstruction (pushedProbe word value)).1 = .ok (.finished .Jump) ∧
      (beginInstruction (pushedProbe word value)).2.registers.pc = value := by
  have is : (decodeInstruction (encodeInstruction Opcode.RET.toByte 0 0 0 0)).opcode = Opcode.RET.toByte := by decide
  have other : ¬ Opcode.RET.toByte = Opcode.CALL.toByte := by decide
  have room : (pushedProbe word value).memory.canPop (pushedProbe word value).registers.sp = true := rfl
  have inMemory : (pushedProbe word value).registers.sp.toNat + 4 ≤ (pushedProbe word value).physical.size := by
    change 12 ≤ 1048576
    decide
  have top : (pushedProbe word value).physical.wordAt (pushedProbe word value).registers.sp = value :=
    PhysicalMemory.wordAt_putWord_same value
  rw [beginInstruction_of_fetch (pushedProbe_fetch word value), is, if_neg other,
    InstructionRegistry.execute_of_opcode is rfl, retHandler_eq, ExecutionContext.popEffect, if_pos room,
      if_pos inMemory, top]
  exact ⟨rfl, rfl⟩

theorem readOperand_pushWord {ctx : ExecutionContext} :
    readOperand (decodeInstruction (encodeRegImm .PUSH 0 0 imm)) ctx = signedField imm := readOperand_immediate

/-- So a return goes to the pushed label exactly if the field gives it back. In one
direction, matched words of a run under which nobody writes are equal; in the other,
the probe is such a run. -/
theorem returnsTo_iff (target : Nat) :
    ReturnsTo (encodeRegImm .PUSH 0 0 imm) target ↔ (signedField imm).toNat = target := by
  have isPush : (decodeInstruction (encodeRegImm .PUSH 0 0 imm)).opcode = Opcode.PUSH.toByte :=
    decode_encode_opcode _ _ _ _ _
  have isReturn : (decodeInstruction (encodeInstruction Opcode.RET.toByte 0 0 0 0)).opcode = Opcode.RET.toByte := by
    decide
  constructor
  · intro returns
    obtain ⟨succeeds, pc⟩ := pushedProbe_return (encodeRegImm .PUSH 0 0 imm) (signedField imm)
    have ran : run ExecutionContext.processStep (returnProbe (encodeRegImm .PUSH 0 0 imm)) [⟨true, .idle⟩] =
        some (pushedProbe (encodeRegImm .PUSH 0 0 imm) (signedField imm)) := by
      have advanced : (returnProbe (encodeRegImm .PUSH 0 0 imm)).advance true =
        pushedProbe (encodeRegImm .PUSH 0 0 imm) (signedField imm) := by
        rw [ExecutionContext.advance, returnProbe_push]
        rfl
      rw [← advanced]
      rfl
    have pushed : Progress.Returns .Continue (beginInstruction (returnProbe (encodeRegImm .PUSH 0 0 imm))).1 := by
      rw [returnProbe_push]
      rfl
    have traced : (returnProbe (encodeRegImm .PUSH 0 0 imm)).stackTrace [⟨true, .idle⟩] =
      [.push (signedField imm)] := by
      have moved : (returnProbe (encodeRegImm .PUSH 0 0 imm)).stackMove = .push (signedField imm) := by
        have operand : readOperand _ (returnProbe (encodeRegImm .PUSH 0 0 imm)) = signedField imm :=
          readOperand_pushWord
        rw [← operand]
        exact ExecutionContext.stackMove_of_push returnProbe_fetch isPush pushed
      rw [ExecutionContext.stackTrace, ExecutionContext.stackTrace, moved]
    have bracketed : WellBracketed ([] : List (StackMove Word)) :=
      ⟨fun before earlier => by simp [List.prefix_nil.mp earlier], rfl⟩
    have untouched : Guarded ExecutionContext.processStep ExecutionContext.StackUntouched
        (returnProbe (encodeRegImm .PUSH 0 0 imm)) [⟨true, .idle⟩] := ⟨fun _ _ => rfl, fun _ _ => trivial⟩
    have goes := returns _ _ _ _ _ _ (returnProbe_sound _) returnProbe_fetch untouched ran traced bracketed
      (pushedProbe_fetch _ _) isReturn succeeds
    rw [pc] at goes
    exact goes
  · intro same ctx atReturn steps value middle instruction sound fetched untouched ran traced bracketed there isReturn
      succeeds
    have popped := ExecutionContext.stackMove_return there isReturn succeeds
    have pushed : value = signedField imm := by
      cases steps with
      | nil => cases traced
      | cons action steps =>
        obtain ⟨moved, _⟩ := List.cons.inj traced
        rw [ExecutionContext.stackMove_push fetched isPush moved]
        exact readOperand_pushWord
    have whole : ctx.stackTrace (steps ++ [⟨true, .idle⟩]) =
        .push value :: (middle ++ [.pop (beginInstruction atReturn).2.registers.pc]) := by
      rw [ExecutionContext.stackTrace_run ran, traced, ExecutionContext.stackTrace, ExecutionContext.stackTrace, popped]
      rfl
    have untouched' : Guarded ExecutionContext.processStep ExecutionContext.StackUntouched ctx
      (steps ++ [⟨true, .idle⟩]) := by
      refine guarded_append_iff.mpr ⟨untouched, fun reached _ => ⟨fun _ _ => rfl, fun _ _ => trivial⟩⟩
    rw [sound.matched untouched' whole bracketed, pushed, same]

end Returns

namespace Source

/-- The branches to a label. -/
def Instruction.branch? (instruction : Instruction) : Option (Branch × Text) :=
  match instruction.operands with
  | [.name label] =>
    if instruction.mnemonic = "push".toList then some (.push, label)
    else
      (Source.opcode? instruction.mnemonic).bind (fun opcode =>
        if isJump opcode then some (.jump opcode, label) else none)
  | _ => none

variable {source : Text} {program : AssembledProgram} {statements before later : List Statement}
  {first second parser : Parser}
  {instruction : Instruction} {branch : Branch} {name : Text}

/-- The word of a branch is made of the address that its label has when the second
pass comes to it. -/
theorem word_of_branch (branches : instruction.branch? = some (branch, name)) :
    instruction.word? true parser = (parser.labels name).map branch.encode := by
  obtain ⟨mnemonic, operands⟩ := instruction
  unfold Instruction.branch? at branches
  dsimp only at branches
  split at branches
  · split at branches
    · rename_i push
      subst push
      cases branches
      rfl
    · rename_i notPush
      obtain ⟨opcode, known, found⟩ := Option.bind_eq_some_iff.mp branches
      split at found
      · rename_i jump
        cases found
        have notPop : mnemonic ≠ "pop".toList := by
          rintro rfl
          have pop : opcode? "pop".toList = some .POP := rfl
          rw [pop] at known
          cases known
          cases jump
        change oneOperandWord? true parser mnemonic (.name name) = _
        unfold oneOperandWord?
        rw [if_neg notPush, if_neg notPop, known, Option.bind_eq_bind, Option.bind_some, if_pos jump]
        rfl
      · cases found
  · cases branches

/-- A branch that is no `push` is one of the seven jumps. -/
theorem isJump_of_branch {opcode : Opcode} (branches : instruction.branch? = some (.jump opcode, name)) :
    isJump opcode = true := by
  unfold Instruction.branch? at branches
  split at branches
  · split at branches
    · cases branches
    · obtain ⟨opcode', known, found⟩ := Option.bind_eq_some_iff.mp branches
      split at found
      · rename_i jump
        cases found
        exact jump
      · cases found
  · cases branches

/-- A label that is defined once has the same address wherever the second pass
looks it up: the number of instructions before its definition. -/
theorem Assembled.label (assembled : Assembled source program statements first second)
    (split : statements = before ++ .label name :: later) (once : .label name ∉ before ++ later)
    {done rest : List Statement}
    {middle : Parser} (parts : statements = done ++ rest)
    (ran : pass true { first with codeAddress := 0, code := [] } done = some middle) :
    middle.labels name = some (BitVec.ofNat 32 (instructions before).length) := by
  obtain ⟨notBefore, notLater⟩ := not_or.mp (fun member => once (List.mem_append.mpr member))
  have start : (0 : Address) + BitVec.ofNat 32 (instructions before).length =
    BitVec.ofNat 32 (instructions before).length :=
    BitVec.zero_add _
  by_cases passed : .label name ∈ done
  · obtain ⟨earlier, between, rfl⟩ := List.append_of_mem passed
    have same : before ++ .label name :: later = earlier ++ .label name :: (between ++ rest) := by
      rw [← split, parts, List.append_assoc]
      rfl
    obtain ⟨rfl, -, rfl⟩ := (List.append_cons_inj_of_notMem notBefore notLater).mp same
    have notBetween : .label name ∉ between := fun member => notLater (List.mem_append_left rest member)
    rw [label_of_run ran notBetween]
    exact congrArg some start
  · have kept : middle.labels name =
        ({ first with section_ := .None, codeAddress := 0, code := [] } : Parser).labels name :=
          labels_of_run ran passed
    have firstRan := assembled.firstPass
    rw [split] at firstRan
    rw [kept, label_of_run firstRan notLater]
    exact congrArg some start

/-- The words of the branches to a label. -/
theorem Assembled.branch_word (assembled : Assembled source program statements first second)
    (split : statements = before ++ .label name :: later) (once : .label name ∉ before ++ later) {k : Nat}
    (found : (instructions statements)[k]? = some instruction) (branches : instruction.branch? = some (branch, name)) :
    program.code[k]? = some (branch.encode (BitVec.ofNat 32 (instructions before).length)) := by
  obtain ⟨done, rest, middle, word, parts, _, ran, made, placed⟩ := assembled.word found
  rw [word_of_branch branches, assembled.label split once parts ran] at made
  rw [placed, ← made]
  rfl

/-- Twelve bits, sign-extended, give back the targets below 2048 and, as 32-bit
words, the 2048 highest ones. -/
theorem goesTo_encode_iff {target : Nat} (branches : instruction.branch? = some (branch, name)) :
    branch.GoesTo (branch.encode (BitVec.ofNat 32 target)) target ↔
      target < 2048 ∨ 4294965248 ≤ target ∧ target < 4294967296 := by
  have represented : (signedField ((BitVec.ofNat 32 target).setWidth 16)).toNat = target ↔
      target < 2048 ∨ 4294965248 ≤ target ∧ target < 4294967296 := by
    have low : ((BitVec.ofNat 32 target).setWidth 16).toNat % 4096 = target % 4096 := by
      rw [BitVec.toNat_setWidth, BitVec.toNat_ofNat]
      omega
    rw [signedField_toNat, low]
    by_cases small : target % 4096 < 2048
    · rw [if_pos small]
      omega
    · rw [if_neg small]
      omega
  rw [← represented]
  cases branch with
  | jump opcode => exact jumpsTo_iff (isJump_of_branch branches) target
  | push => exact returnsTo_iff target

/-- The same of the word at a place in the code of an accepted source. -/
theorem Assembled.branch_iff (assembled : Assembled source program statements first second)
    (split : statements = before ++ .label name :: later) (once : .label name ∉ before ++ later) {k : Nat}
    (found : (instructions statements)[k]? = some instruction) (branches : instruction.branch? = some (branch, name)) :
    (∃ word, program.code[k]? = some word ∧ branch.GoesTo word (instructions before).length) ↔
      (instructions before).length < 2048 ∨
        4294965248 ≤ (instructions before).length ∧ (instructions before).length < 4294967296 := by
  have placed := assembled.branch_word split once found branches
  rw [← goesTo_encode_iff branches]
  constructor
  · rintro ⟨word, placed', goes⟩
    rw [placed] at placed'
    cases placed'
    exact goes
  · intro goes
    exact ⟨_, placed, goes⟩

/-- The instructions before the definition of a label count up to the one below it. -/
theorem instruction_below_label :
    (instructions (before ++ .label name :: later))[(instructions before).length]? = (instructions later).head? := by
  have below : instructions (.label name :: later) = instructions later := List.filterMap_cons_none rfl
  rw [instructions_append, below, List.getElem?_append_right le_rfl, Nat.sub_self, List.head?_eq_getElem?]

/-- A branch to a label goes to the word of the instruction below its only
definition if and only if the index of that word fits the immediate field. -/
theorem branch_target_iff (accepted : assemble source = .ok program)
    (read : Source.read source = some (before ++ .label name :: later)) (once : .label name ∉ before ++ later) {k : Nat}
    (found : (instructions (before ++ .label name :: later))[k]? = some instruction)
    (branches : instruction.branch? = some (branch, name)) :
    (∃ word, program.code[k]? = some word ∧ branch.GoesTo word (instructions before).length) ↔
      (instructions before).length < 2048 ∨
        4294965248 ≤ (instructions before).length ∧ (instructions before).length < 4294967296 := by
  obtain ⟨first, second, assembled⟩ := exists_assembled_of_read accepted read
  exact assembled.branch_iff rfl once found branches

/-- A jump over one instruction. -/
def skipHalt : Text := "CODE:\njmp end\nhalt\nend: halt".toList

/-- Its jump goes to the index of the instruction below the label. -/
theorem branch_target_skipHalt :
    ∃ word, (⟨[encodeJump .JMP 2, 0x17000000, 0x17000000], []⟩ : AssembledProgram).code[0]? = some word ∧
      (Branch.jump .JMP).GoesTo word 2 := by
  have accepted : assemble skipHalt = .ok ⟨[encodeJump .JMP 2, 0x17000000, 0x17000000], []⟩ :=
    accepted_of_toOption (by decide +kernel)
  have read : Source.read skipHalt =
      some ([.openSection .Code, .instruction ⟨"jmp".toList, [.name "end".toList]⟩, .instruction ⟨"halt".toList, []⟩] ++
        .label "end".toList :: [.instruction ⟨"halt".toList, []⟩]) := by
    decide +kernel
  have branches : Instruction.branch? ⟨"jmp".toList, [.name "end".toList]⟩ = some (.jump .JMP, "end".toList) := rfl
  exact (branch_target_iff accepted read (by decide) rfl branches).mpr (.inl (by decide))

/-- 2048 instructions, and a loop behind them. -/
def beforeLoop : List Statement :=
  .openSection .Code :: List.replicate 2048 (.instruction ⟨"halt".toList, []⟩)

def afterLoop : List Statement := [.instruction ⟨"jmp".toList, [.name "loop".toList]⟩]

/-- A source in which the label is the first one that the field cannot hold. -/
def farLoop : List Statement := beforeLoop ++ .label "loop".toList :: afterLoop

theorem mem_farLoop {statement : Statement} (member : statement ∈ farLoop) :
    statement = .openSection .Code ∨ statement = .instruction ⟨"halt".toList, []⟩ ∨ statement = .label "loop".toList ∨
      statement = .instruction ⟨"jmp".toList, [.name "loop".toList]⟩ := by
  simp only [farLoop, beforeLoop, afterLoop, List.cons_append, List.mem_cons, List.mem_append, List.mem_replicate,
    List.not_mem_nil, or_false] at member
  tauto

/-- These statements are what is read from their rendering, so that no proof has to
go through the text. -/
theorem read_farLoop : Source.read (render (farLoop.map plainLine)) = some farLoop := by
  have spelled : ∀ statement ∈ farLoop, wellSpelled [plainLine statement] = true := by
    intro statement member
    rcases mem_farLoop member with rfl | rfl | rfl | rfl <;> decide +kernel
  have codeOpens : SourceSection.Code ≠ .None := by decide
  have halt : (Item.statement (.instruction ⟨"halt".toList, []⟩)).Fits .Code := ⟨rfl, rfl, rfl⟩
  have behind : FitFrom .Code [.statement (.label "loop".toList),
      .statement (.instruction ⟨"jmp".toList, [.name "loop".toList]⟩)] := ⟨⟨rfl, rfl⟩, ⟨rfl, rfl, rfl⟩, trivial⟩
  have fit : FitFrom .None (farLoop.map Item.statement) := by
    rw [farLoop, beforeLoop, List.map_append, List.map_cons, List.map_replicate]
    exact ⟨codeOpens, fitFrom_replicate halt rfl behind 2048⟩
  exact read_render (List.cons_ne_nil _ _) (wellSpelled_plainLines spelled) fit

/-- Neither pass stops at one of them, as the label is known to the second. -/
theorem pass_farLoop {emit : Bool} (known : emit = true → (parser.labels "loop".toList).isSome = true) :
    ∃ after, pass emit parser farLoop = some after := by
  have each : ∀ (before : Parser) (statement : Statement) (rest : List Statement),
      ((∀ other ∈ statement :: rest, other ∈ farLoop) ∧ (emit = true → (before.labels "loop".toList).isSome = true)) →
      ∃ after, statement.perform emit before = some after ∧
        (∀ other ∈ rest, other ∈ farLoop) ∧ (emit = true → (after.labels "loop".toList).isSome = true) := by
    rintro before statement rest ⟨members, known⟩
    have others : ∀ other ∈ rest, other ∈ farLoop := fun other member => members other (List.mem_cons_of_mem _ member)
    rcases mem_farLoop (members statement List.mem_cons_self) with rfl | rfl | rfl | rfl
    · exact ⟨_, rfl, others, known⟩
    · exact ⟨_, rfl, others, known⟩
    · refine ⟨_, rfl, others, fun _ => ?_⟩
      exact congrArg Option.isSome (Function.update_self "loop".toList (some before.codeAddress) before.labels)
    · obtain ⟨address, found⟩ : ∃ address, target? emit before "loop".toList = some address := by
        cases emit with
        | false => exact ⟨0, rfl⟩
        | true => exact Option.isSome_iff_exists.mp (known rfl)
      have word : Instruction.word? emit before ⟨"jmp".toList, [.name "loop".toList]⟩ =
        some (encodeJump .JMP address) := by
        change (target? emit before "loop".toList).map (encodeJump .JMP) = _
        rw [found]
        rfl
      refine ⟨afterWord emit before (encodeJump .JMP address), ?_, others, known⟩
      rw [Statement.perform, word, Option.map_some]
  obtain ⟨after, ran, _⟩ := PartialFold.succeeds
    (I := fun rest before => (∀ other ∈ rest, other ∈ farLoop) ∧
      (emit = true → (before.labels "loop".toList).isSome = true))
    each (s := { parser with section_ := .None }) ⟨fun _ member => member, known⟩
  exact ⟨after, ran⟩

/-- So the assembler accepts the source. -/
theorem accepted_farLoop : ∃ program, assemble (render (farLoop.map plainLine)) = .ok program := by
  have unknown : false = true → ((({ lexer := { source := [] } } : Parser).labels "loop".toList).isSome = true) := by
    intro impossible
    cases impossible
  obtain ⟨first, firstPass⟩ := pass_farLoop unknown
  have defined : .label "loop".toList ∈ farLoop := List.mem_append_right _ List.mem_cons_self
  have labelled : (first.labels "loop".toList).isSome = true := label_isSome_of_run firstPass (.inl defined)
  have known : true = true →
    ((({ first with codeAddress := 0, code := [] } : Parser).labels "loop".toList).isSome = true) :=
    fun _ => labelled
  obtain ⟨second, secondPass⟩ := pass_farLoop known
  refine ⟨{ code := second.code, data := first.dataImage }, accepted_of_toOption ?_⟩
  rw [assemble_toOption, read_farLoop, Option.bind_some, translate_of_pass firstPass, secondPass]
  rfl

/-- Its jump to 2048 goes to the address with the highest 21 bits set instead. -/
theorem branch_target_fails_for_farLoop :
    ¬ ∀ (source : Text) (program : AssembledProgram) (before later : List Statement) (name : Text) (k : Nat)
        (instruction : Instruction) (branch : Branch), assemble source = .ok program →
        Source.read source = some (before ++ .label name :: later) → .label name ∉ before ++ later →
        (instructions (before ++ .label name :: later))[k]? = some instruction →
        instruction.branch? = some (branch, name) →
        ∃ word, program.code[k]? = some word ∧ branch.GoesTo word (instructions before).length := by
  intro goes
  obtain ⟨program, accepted⟩ := accepted_farLoop
  obtain ⟨first, second, assembled⟩ := exists_assembled_of_read accepted read_farLoop
  have once : .label "loop".toList ∉ beforeLoop ++ afterLoop := by
    intro member
    rcases List.mem_append.mp member with before | after
    · rcases List.mem_cons.mp before with code | halts
      · cases code
      · cases List.eq_of_mem_replicate halts
    · cases List.mem_singleton.mp after
  have count : (instructions beforeLoop).length = 2048 := by decide +kernel
  have found : (instructions farLoop)[2048]? = some ⟨"jmp".toList, [.name "loop".toList]⟩ := by
    have below : (instructions farLoop)[(instructions beforeLoop).length]? = (instructions afterLoop).head? :=
      instruction_below_label
    rw [← count, below]
    rfl
  have branches : Instruction.branch? ⟨"jmp".toList, [.name "loop".toList]⟩ = some (.jump .JMP, "loop".toList) := rfl
  have all := goes _ _ beforeLoop afterLoop _ _ _ _ accepted read_farLoop once found branches
  rcases (assembled.branch_iff rfl once found branches).mp all with low | ⟨high, _⟩
  · omega
  · omega

end Source

end VirtualMachine
