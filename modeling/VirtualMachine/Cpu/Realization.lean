import VirtualMachine.Cpu.InstructionFrame
import VirtualMachine.Isa.Command
import VirtualMachine.Isa.SubtractionFlags

namespace VirtualMachine

open LittleEndian

namespace ProcessModel

variable {data : List Byte} {offset j : Nat} {word : Word}

/-- A word written into the data leaves their length. -/
theorem length_putWord (inside : offset + 4 ≤ data.length) : (putWord data offset word).length = data.length := by
  have four : wordSize = 4 := rfl
  rw [putWord, List.length_append, List.length_append, List.length_take, List.length_map, List.length_range,
    List.length_drop]
  omega

/-- And it changes its own four bytes only. -/
theorem getElem?_putWord (inside : offset + 4 ≤ data.length) :
    (putWord data offset word)[j]? =
      if offset ≤ j ∧ j < offset + 4 then some (byteOf word (j - offset)) else data[j]? := by
  have four : wordSize = 4 := rfl
  have first : (data.take offset).length = offset := by
    rw [List.length_take]
    omega
  have middle : (data.take offset ++ (List.range wordSize).map (byteOf word)).length = offset + 4 := by
    rw [List.length_append, first, List.length_map, List.length_range]
  rw [putWord]
  by_cases below : j < offset
  · rw [if_neg (by omega), List.getElem?_append_left (by omega), List.getElem?_append_left (by omega),
      List.getElem?_take, if_pos below]
  · by_cases within : j < offset + 4
    · rw [if_pos ⟨by omega, within⟩, List.getElem?_append_left (by omega), List.getElem?_append_right (by omega), first,
        List.getElem?_map, List.getElem?_range (show j - offset < 4 by omega)]
      rfl
    · rw [if_neg (by omega), List.getElem?_append_right (by omega), middle, List.getElem?_drop]
      congr 1
      omega

end ProcessModel

/-- Code, data and stack of a process are in memory where its layout and SP say. -/
structure ExecutionContext.Holds (ctx : ExecutionContext) (code : List Word) (data : List Byte) (stack : List Word) :
    Prop where
  packed : ctx.process.layout.Packed
  stackSize : ctx.process.layout.stackSize = kStackSize
  codeSize : ctx.process.layout.codeSize = 4 * code.length
  dataSize : ctx.process.layout.dataSize = data.length
  inMemory : ctx.process.layout.base.toNat + ctx.process.layout.codeSize + ctx.process.layout.dataSize + kStackSize ≤
    ctx.physical.size
  code : ∀ i word, code[i]? = some word → ∀ address : Address,
    address.toNat = ctx.process.layout.base.toNat + 4 * i → ctx.physical.wordAt address = word
  data : ∀ j byte, data[j]? = some byte →
    ctx.physical.memory (ctx.process.layout.base.toNat + ctx.process.layout.codeSize + j) = byte
  sp : ctx.registers.sp.toNat + 4 * stack.length =
    ctx.process.layout.base.toNat + ctx.process.layout.codeSize + ctx.process.layout.dataSize + kStackSize
  room : stack.length ≤ stackCapacity
  stack : ∀ i word, stack[i]? = some word → ∀ address : Address,
    address.toNat = ctx.registers.sp.toNat + 4 * i → ctx.physical.wordAt address = word

/-- What is left of a process without its place in memory. -/
def ExecutionContext.view (ctx : ExecutionContext) (data : List Byte) (stack : List Word) : ProcessModel :=
  { gpr := ctx.registers.gpr
    pc := ctx.registers.pc
    flags := ctx.registers.flags
    data := data
    stack := stack
    lastError := ctx.process.lastError
    input := ctx.input
    printed := (ctx.output.filter (fun line => line.1 == ctx.process.id)).map (fun line => line.2) }

/-- What is printed is no part of the view: the output of a process is compared
apart. -/
theorem ExecutionContext.view_print (ctx : ExecutionContext) (data : List Byte) (stack : List Word) (word : Word) :
    ExecutionContext.view { ctx with output := ctx.output ++ [(ctx.process.id, word)] } data stack =
      { ctx.view data stack with printed := (ctx.view data stack).printed ++ [word] } := by
  have printed : ((ctx.output ++ [(ctx.process.id, word)]).filter (fun line => line.1 == ctx.process.id)).map
      (fun line => line.2) = (ctx.view data stack).printed ++ [word] := by
    have own : [(ctx.process.id, word)].filter (fun line => line.1 == ctx.process.id) = [(ctx.process.id, word)] :=
      List.filter_eq_self.mpr (fun line member => by rw [List.mem_singleton.mp member, beq_self_eq_true])
    rw [List.filter_append, List.map_append, own]
    rfl
  rw [← printed]
  rfl

/-- The process is this one, in some place of the memory. This is the relation
between the two levels: a list of words and bytes above, a region of the physical
memory below. -/
inductive Realizes (code : List Word) : ProcessModel → ExecutionContext → Prop
  | intro {ctx : ExecutionContext} {data : List Byte} {stack : List Word} (holds : ctx.Holds code data stack) :
      Realizes code (ctx.view data stack) ctx

namespace ExecutionContext.Holds

variable {ctx : ExecutionContext} {code : List Word} {data : List Byte} {stack : List Word} {word : Word}

/-- Nothing that is held depends on the other registers, the flags or the streams. -/
theorem congr {other : ExecutionContext} (holds : ctx.Holds code data stack)
    (layout : other.process.layout = ctx.process.layout)
    (sp : other.registers.sp = ctx.registers.sp) (physical : other.physical = ctx.physical) :
    other.Holds code data stack := by
  obtain ⟨packed, stackSize, codeSize, dataSize, inMemory, inCode, inData, top, room, inStack⟩ := holds
  constructor
  all_goals first | rw [layout] | skip
  all_goals first | rw [physical] | skip
  all_goals first | rw [sp] | skip
  all_goals assumption

/-- The next command is that of the word at PC. -/
theorem fetch? (holds : ctx.Holds code data stack) (here : code[ctx.registers.pc.toNat]? = some word) :
    ctx.fetch? = some (decodeInstruction word) := by
  have bound : ctx.registers.pc.toNat < code.length := (List.getElem?_eq_some_iff.mp here).1
  have inside : ctx.registers.pc.toNat * 4 + 4 ≤ ctx.process.layout.codeSize := by
    rw [holds.codeSize]
    omega
  have address : ctx.fetchAddress.toNat = ctx.process.layout.base.toNat + ctx.registers.pc.toNat * 4 :=
    holds.packed.codeWordAddress inside
  have inMemory := holds.inMemory
  rw [ExecutionContext.fetch?, if_pos (by omega), holds.code _ word here _ (by omega)]

/-- Where an offset of the data is. -/
theorem dataAddress (holds : ctx.Holds code data stack) (offset : Address) (inside : offset.toNat ≤ data.length) :
    (ctx.process.layout.dataAddress + offset).toNat =
      ctx.process.layout.base.toNat + ctx.process.layout.codeSize + offset.toNat :=
  holds.packed.dataOffsetAddress (by rwa [holds.dataSize])

/-- A word access is allowed exactly within the data. -/
theorem dataAccess_iff (holds : ctx.Holds code data stack) (offset : Address) :
    ctx.memory.DataAccess offset ↔ offset.toNat + 4 ≤ data.length := by
  unfold ProcessMemory.DataAccess
  have size : ctx.memory.layout.dataSize = data.length := holds.dataSize
  rw [size]
  refine and_iff_left_of_imp fun inside => ?_
  have address := holds.dataAddress offset (by omega)
  have inMemory := holds.inMemory
  rw [holds.dataSize] at inMemory
  change (ctx.process.layout.dataAddress + offset).toNat + 4 ≤ ctx.physical.size
  omega

/-- The words of the data are read as they are. -/
theorem wordAt_data (holds : ctx.Holds code data stack) {offset : Address}
    (found : ProcessModel.word? data offset.toNat = some word) :
    ctx.physical.wordAt (ctx.process.layout.dataAddress + offset) = word := by
  unfold ProcessModel.word? at found
  split at found
  · rename_i inside
    have four : wordSize = 4 := rfl
    have address := holds.dataAddress offset (by omega)
    cases found
    refine ofBytes_congr fun i bound => ?_
    rw [address, Nat.add_assoc, List.getD_eq_getElem?_getD, List.getElem?_eq_getElem (by omega), Option.getD_some]
    exact holds.data _ _ (List.getElem?_eq_getElem (by omega))
  · cases found

/-- A push is allowed exactly where there is a free cell. -/
theorem canPush_iff (holds : ctx.Holds code data stack) :
    ctx.memory.canPush ctx.registers.sp = true ↔ stack.length < stackCapacity := by
  have start := holds.packed.stackAddress
  have size : ctx.memory.layout.stackSize = kStackSize := holds.stackSize
  have top := holds.sp
  have capacity : stackCapacity = 1024 := rfl
  have bytes : kStackSize = 4096 := rfl
  change ctx.memory.layout.stackAddress.toNat = _ at start
  rw [ProcessMemory.canPush_iff, start, size]
  omega

/-- A pop is allowed exactly where there is a word. -/
theorem canPop_iff (holds : ctx.Holds code data stack) : ctx.memory.canPop ctx.registers.sp = true ↔ stack ≠ [] := by
  have start := holds.packed.stackAddress
  have size : ctx.memory.layout.stackSize = kStackSize := holds.stackSize
  have top := holds.sp
  have room := holds.room
  have capacity : stackCapacity = 1024 := rfl
  have bytes : kStackSize = 4096 := rfl
  change ctx.memory.layout.stackAddress.toNat = _ at start
  rw [ProcessMemory.canPop_iff, start, size, ← List.length_pos_iff]
  omega

/-- A store changes the data above as it does the bytes below, and neither code nor
stack, as the segments are disjoint. -/
theorem putData (holds : ctx.Holds code data stack) {offset : Address} (inside : offset.toNat + 4 ≤ data.length)
    (word : Word) :
    (ctx.withPhysical (ctx.physical.putWord (ctx.process.layout.dataAddress + offset) word)).Holds code
      (ProcessModel.putWord data offset.toNat word) stack := by
  have address := holds.dataAddress offset (by omega)
  have size := holds.dataSize
  have codeSize := holds.codeSize
  have top := holds.sp
  have bytes : kStackSize = 4096 := rfl
  have length : (ProcessModel.putWord data offset.toNat word).length = data.length := ProcessModel.length_putWord inside
  refine
    { packed := holds.packed, stackSize := holds.stackSize, codeSize := codeSize, room := holds.room
      dataSize := size.trans length.symm, inMemory := holds.inMemory, code := ?_, data := ?_, sp := top, stack := ?_ }
  · intro i stored here target place
    have bound : i < code.length := (List.getElem?_eq_some_iff.mp here).1
    have start : target.toNat = ctx.process.layout.base.toNat + 4 * i := place
    exact (PhysicalMemory.wordAt_putWord_disjoint (Or.inl (by omega))).trans (holds.code i stored here target place)
  · intro j byte here
    rw [ProcessModel.getElem?_putWord inside] at here
    split at here
    · rename_i within
      cases here
      have place : ctx.process.layout.base.toNat + ctx.process.layout.codeSize + j =
          (ctx.process.layout.dataAddress + offset).toNat + (j - offset.toNat) := by
        omega
      exact (congrArg _ place).trans (write_inside (by change j - offset.toNat < 4; omega))
    · rename_i apart
      refine (PhysicalMemory.memory_putWord_outside ?_).trans (holds.data j byte here)
      change ctx.process.layout.base.toNat + ctx.process.layout.codeSize + j <
        (ctx.process.layout.dataAddress + offset).toNat ∨
        (ctx.process.layout.dataAddress + offset).toNat + 4 ≤
          ctx.process.layout.base.toNat + ctx.process.layout.codeSize + j
      omega
  · intro i stored here target place
    have bound : i < stack.length := (List.getElem?_eq_some_iff.mp here).1
    have above : ctx.registers.sp.toNat + 4 * i = target.toNat := place.symm
    refine (PhysicalMemory.wordAt_putWord_disjoint (Or.inr ?_)).trans (holds.stack i stored here target place)
    have room := holds.room
    have capacity : stackCapacity = 1024 := rfl
    omega

/-- A push is one word more on the stack, in the cell below SP. -/
theorem push (holds : ctx.Holds code data stack) (room : stack.length < stackCapacity) (word : Word) :
    ((ctx.withPhysical (ctx.physical.putWord (ctx.registers.sp - 4) word)).withRegisters
      (ctx.registers.setSp (ctx.registers.sp - 4))).Holds code data (word :: stack) := by
  have size := holds.dataSize
  have codeSize := holds.codeSize
  have top := holds.sp
  have bytes : kStackSize = 4096 := rfl
  have capacity : stackCapacity = 1024 := rfl
  have lower : (ctx.registers.sp - 4).toNat = ctx.registers.sp.toNat - 4 := ProcessMemory.toNat_sub_four (by omega)
  refine
    { packed := holds.packed, stackSize := holds.stackSize, codeSize := codeSize, room := room
      dataSize := size, inMemory := holds.inMemory, code := ?_, data := ?_, sp := ?_, stack := ?_ }
  · intro i stored here target place
    have bound : i < code.length := (List.getElem?_eq_some_iff.mp here).1
    have start : target.toNat = ctx.process.layout.base.toNat + 4 * i := place
    exact (PhysicalMemory.wordAt_putWord_disjoint (Or.inl (by omega))).trans (holds.code i stored here target place)
  · intro j byte here
    have bound : j < data.length := (List.getElem?_eq_some_iff.mp here).1
    refine (PhysicalMemory.memory_putWord_outside (Or.inl ?_)).trans (holds.data j byte here)
    change ctx.process.layout.base.toNat + ctx.process.layout.codeSize + j < (ctx.registers.sp - 4).toNat
    omega
  · change (ctx.registers.sp - 4).toNat + 4 * (stack.length + 1) =
      ctx.process.layout.base.toNat + ctx.process.layout.codeSize + ctx.process.layout.dataSize + kStackSize
    rw [lower]
    omega
  · intro i stored here target place
    have start : target.toNat = (ctx.registers.sp - 4).toNat + 4 * i := place
    cases i with
    | zero =>
      cases here
      have same : target = ctx.registers.sp - 4 := BitVec.eq_of_toNat_eq (by omega)
      rw [same]
      exact PhysicalMemory.wordAt_putWord_same word
    | succ i =>
      exact (PhysicalMemory.wordAt_putWord_disjoint (Or.inr (by omega))).trans
        (holds.stack i stored here target (by omega))

/-- The word at SP is the top of the stack. -/
theorem top_word (holds : ctx.Holds code data (word :: stack)) : ctx.physical.wordAt ctx.registers.sp = word :=
  holds.stack 0 word rfl _ rfl

/-- And a pop takes it off. -/
theorem pop (holds : ctx.Holds code data (word :: stack)) :
    (ctx.withRegisters (ctx.registers.setSp (ctx.registers.sp + 4))).Holds code data stack := by
  have top := holds.sp
  have bounded := holds.packed.bounded
  have room := holds.room
  have size := holds.stackSize
  rw [List.length_cons] at top room
  have higher : (ctx.registers.sp + 4).toNat = ctx.registers.sp.toNat + 4 := by
    rw [BitVec.toNat_add]
    change (ctx.registers.sp.toNat + 4) % 2 ^ 32 = _
    omega
  refine
    { packed := holds.packed, stackSize := size, codeSize := holds.codeSize, room := Nat.le_of_succ_le room
      dataSize := holds.dataSize, inMemory := holds.inMemory, code := holds.code, data := holds.data, sp := ?_, stack :=
        ?_ }
  · change (ctx.registers.sp + 4).toNat + 4 * stack.length =
      ctx.process.layout.base.toNat + ctx.process.layout.codeSize + ctx.process.layout.dataSize + kStackSize
    rw [higher]
    omega
  · intro i stored here target place
    have start : target.toNat = (ctx.registers.sp + 4).toNat + 4 * i := place
    exact holds.stack (i + 1) stored here target (by omega)

end ExecutionContext.Holds

namespace RegisterFile

variable (registers : RegisterFile) (lhs rhs value : Word)

theorem flags_updateFlags : (registers.updateFlags value).flags = registers.flags.ofResult value := by
  rw [CpuFlags.ofResult, ← BitVec.slt_zero_eq_msb]
  rfl

/-- The flags of a subtraction, in terms of the two operands. -/
theorem flags_updateFlagsSub : (registers.updateFlagsSub lhs rhs (lhs - rhs)).flags = .ofDifference lhs rhs := by
  have exact_ := registers.subtracted_updateFlagsSub lhs rhs
  have zero : (registers.updateFlagsSub lhs rhs (lhs - rhs)).flags.zero = (lhs == rhs) :=
    Bool.eq_iff_iff.mpr (exact_.zero.trans beq_iff_eq.symm)
  have sign : (registers.updateFlagsSub lhs rhs (lhs - rhs)).flags.sign = (lhs - rhs).msb := BitVec.slt_zero_eq_msb
  have overflow : (registers.updateFlagsSub lhs rhs (lhs - rhs)).flags.overflow = lhs.ssubOverflow rhs := by
    refine Bool.eq_iff_iff.mpr (exact_.overflow.trans ?_)
    rw [BitVec.ssubOverflow, Bool.or_eq_true, decide_eq_true_eq, decide_eq_true_eq]
    omega
  rw [CpuFlags.ofDifference, ← zero, ← sign, ← overflow]
  rfl

end RegisterFile

/-- Two ways to say the same: the process is held, and this is its view. -/
theorem ExecutionContext.Holds.realizes {ctx : ExecutionContext} {code : List Word} {data : List Byte}
    {stack : List Word}
    {m : ProcessModel} (holds : ctx.Holds code data stack) (same : ctx.view data stack = m) : Realizes code m ctx :=
  same ▸ .intro holds

/-- An instruction ends as the command does, and leaves what it leaves. -/
structure Refines (code : List Word) (outcome : ProcessModel.Outcome)
    (ran : Except Exception Progress × ExecutionContext) :
    Prop where
  ends : ran.1 = outcome.1
  realizes : Realizes code outcome.2 ran.2

namespace ExecutionContext.Holds

variable {ctx : ExecutionContext} {code : List Word} {data : List Byte} {stack : List Word} {word : Word}

/-- What changes registers only, and not SP. -/
theorem refines_registers (holds : ctx.Holds code data stack) {after : RegisterFile} {m : ProcessModel}
    {result : ExecutionResult}
    (sp : after.sp = ctx.registers.sp)
    (same : m = { ctx.view data stack with gpr := after.gpr, pc := after.pc, flags := after.flags }) :
    Refines code (.ok (.finished result), m) (finishExecute ((Effect.registers after result).apply ctx)) := by
  have kept : (ctx.withRegisters after).useTimeSlice.Holds code data stack := holds.congr rfl sp rfl
  exact ⟨rfl, kept.realizes same.symm⟩

/-- An error is the same error, and nothing has been written. -/
theorem refines_fail (holds : ctx.Holds code data stack) (message : String) :
    Refines code ((ctx.view data stack).fails message)
      (finishExecute ((Effect.fail message ctx.registers.sp).apply ctx)) := by
  have kept : (finishExecute ((Effect.fail message ctx.registers.sp).apply ctx)).2.Holds code data stack :=
    holds.congr rfl rfl rfl
  exact ⟨rfl, kept.realizes rfl⟩

/-- So is an exception. -/
theorem refines_throw (holds : ctx.Holds code data stack) (e : Exception) :
    Refines code ((ctx.view data stack).throws e) (.error e, ctx) :=
  ⟨rfl, holds.realizes rfl⟩

/-- The jumps: the condition is one of the flags, and the target is in the word. -/
theorem refines_jump (holds : ctx.Holds code data stack) (instruction : DecodedInstruction) (condition : Condition)
    (same : takeJump ctx.registers.flags instruction.opcode = condition.holds ctx.registers.flags) :
    Refines code ((ctx.view data stack).perform (.jump condition (instruction.imm.signExtend 32)))
      (finishExecute ((if takeJump ctx.registers.flags instruction.opcode then ctx.jumpEffect instruction
        else Effect.registers ctx.registers.advancePc .Continue).apply ctx)) := by
  rw [same, ProcessModel.perform]
  by_cases taken : condition.holds ctx.registers.flags = true
  · have jumps : condition.holds (ctx.view data stack).flags = true := taken
    rw [if_pos taken, if_pos jumps]
    exact holds.refines_registers rfl rfl
  · have stays : ¬ condition.holds (ctx.view data stack).flags = true := taken
    rw [if_neg taken, if_neg stays]
    exact holds.refines_registers rfl rfl

/-- Each access function of the process memory is one of the byte list, errors and
their texts included. -/
theorem readDataWord (holds : ctx.Holds code data stack) (offset : Address) :
    ctx.memory.readDataWord offset =
      match ProcessModel.word? data offset.toNat with
      | none => .error (ProcessModel.outside offset.toNat)
      | some word => .ok word := by
  by_cases inside : offset.toNat + 4 ≤ data.length
  · have found : ProcessModel.word? data offset.toNat = some _ := if_pos inside
    rw [ProcessMemory.readDataWord_ok ((holds.dataAccess_iff offset).mpr inside), found]
    exact congrArg Except.ok (holds.wordAt_data found)
  · have missing : ProcessModel.word? data offset.toNat = none := if_neg inside
    have beyond : ctx.memory.layout.dataSize < offset.toNat + wordSize := by
      change ctx.process.layout.dataSize < offset.toNat + 4
      rw [holds.dataSize]
      omega
    rw [ProcessMemory.readDataWord, ProcessMemory.validateDataOffset_error beyond, missing]
    rfl

theorem writeDataWord (holds : ctx.Holds code data stack) (offset : Address) (value : Word) :
    ctx.memory.writeDataWord offset value =
      if offset.toNat + wordSize ≤ data.length then
        .ok (ctx.physical.putWord (ctx.process.layout.dataAddress + offset) value)
      else .error (ProcessModel.outside offset.toNat) := by
  by_cases inside : offset.toNat + wordSize ≤ data.length
  · rw [if_pos inside]
    exact ProcessMemory.writeDataWord_ok value ((holds.dataAccess_iff offset).mpr inside)
  · have beyond : ctx.memory.layout.dataSize < offset.toNat + wordSize := by
      change ctx.process.layout.dataSize < offset.toNat + wordSize
      rw [holds.dataSize]
      omega
    rw [if_neg inside, ProcessMemory.writeDataWord, ProcessMemory.validateDataOffset_error beyond]
    rfl

theorem readDataByte (holds : ctx.Holds code data stack) {k : Nat} (bounded : k < 2 ^ 32) :
    ctx.memory.readDataByte (BitVec.ofNat 32 k) =
      match data[k]? with
      | none => .error (ProcessModel.outside k)
      | some byte => .ok byte := by
  have index : (BitVec.ofNat 32 k).toNat = k := by rw [BitVec.toNat_ofNat, Nat.mod_eq_of_lt bounded]
  have size : ctx.memory.layout.dataSize = data.length := holds.dataSize
  by_cases inside : k < data.length
  · have address := holds.dataAddress (BitVec.ofNat 32 k) (by rw [index]; omega)
    have inMemory := holds.inMemory
    have fits : (ctx.memory.layout.dataAddress + BitVec.ofNat 32 k).toNat + 1 ≤ ctx.memory.physical.size := by
      change (ctx.process.layout.dataAddress + BitVec.ofNat 32 k).toNat + 1 ≤ ctx.physical.size
      rw [holds.dataSize] at inMemory
      omega
    rw [ProcessMemory.readDataByte_ok (by rw [index, size]; exact inside) fits, List.getElem?_eq_getElem inside]
    change Except.ok (ctx.physical.memory (ctx.process.layout.dataAddress + BitVec.ofNat 32 k).toNat) = _
    rw [address, index, holds.data k _ (List.getElem?_eq_getElem inside)]
  · have beyond : ctx.memory.layout.dataSize < (BitVec.ofNat 32 k).toNat + 1 := by
      rw [index, size]
      omega
    have refused : ctx.memory.validateDataOffset (BitVec.ofNat 32 k) 1 = .error (ProcessModel.outside k) := by
      rw [ProcessMemory.validateDataOffset_error beyond, ProcessMemory.segmentError, index]
      rfl
    rw [ProcessMemory.readDataByte, refused, List.getElem?_eq_none (Nat.le_of_not_lt inside)]
    rfl

/-- The path of a load system call is read off the data byte by byte, by induction
on the bytes that may still come. -/
theorem readLoadPath (holds : ctx.Holds code data stack) (argAddress : Word) (count offset : Nat)
    (bounded : argAddress.toNat + offset + count < 2 ^ 32) :
    SyscallHandler.readLoadPath ctx.memory argAddress count offset =
      ProcessModel.readPath data count (argAddress.toNat + offset) := by
  induction count generalizing offset with
  | zero => rfl
  | succ count ih =>
    have place : argAddress + BitVec.ofNat 32 offset = BitVec.ofNat 32 (argAddress.toNat + offset) := by
      rw [BitVec.ofNat_add, BitVec.ofNat_toNat, BitVec.setWidth_eq]
    rw [SyscallHandler.readLoadPath, ProcessModel.readPath, place, holds.readDataByte (by omega)]
    cases data[argAddress.toNat + offset]? with
    | none => rfl
    | some byte =>
      dsimp only
      rw [ih (offset + 1) (by omega), Nat.add_assoc]

/-- Each kind of instruction refines its command. The rest of the section goes
through them. -/
theorem refines_load (holds : ctx.Holds code data stack) (instruction : DecodedInstruction) :
    Refines code ((ctx.view data stack).perform (.load instruction.rd (instruction.imm.signExtend 32)))
      (finishExecute ((ctx.loadEffect instruction).apply ctx)) := by
  rw [ExecutionContext.loadEffect, holds.readDataWord, ProcessModel.perform]
  change Refines code (match ProcessModel.word? data _ with | none => _ | some word => _) _
  cases ProcessModel.word? data (instruction.imm.signExtend 32).toNat with
  | none => exact holds.refines_throw _
  | some word => exact holds.refines_registers rfl rfl

theorem refines_store (holds : ctx.Holds code data stack) (instruction : DecodedInstruction) :
    Refines code ((ctx.view data stack).perform (.store instruction.rd (instruction.imm.signExtend 32)))
      (finishExecute ((ctx.storeEffect instruction).apply ctx)) := by
  rw [ExecutionContext.storeEffect, holds.writeDataWord, ProcessModel.perform]
  by_cases inside : (instruction.imm.signExtend 32).toNat + wordSize ≤ data.length
  · have fits : (instruction.imm.signExtend 32).toNat + wordSize ≤ (ctx.view data stack).data.length := inside
    rw [if_pos inside, if_pos fits]
    refine ⟨rfl, Holds.realizes ?_ rfl⟩
    exact (holds.putData inside _).congr rfl rfl rfl
  · have refused : ¬ (instruction.imm.signExtend 32).toNat + wordSize ≤ (ctx.view data stack).data.length := inside
    rw [if_neg inside, if_neg refused]
    exact holds.refines_throw _

theorem refines_push (holds : ctx.Holds code data stack) (value : Value) :
    Refines code ((ctx.view data stack).perform (.push value))
      (finishExecute ((ctx.pushEffect ((ctx.view data stack).read value)).apply ctx)) := by
  rw [ExecutionContext.pushEffect, ProcessModel.perform]
  by_cases room : stack.length < stackCapacity
  · have fits : (ctx.view data stack).stack.length < stackCapacity := room
    have top := holds.sp
    have inMemory := holds.inMemory
    rw [if_pos fits, if_pos (holds.canPush_iff.mpr room), if_pos (by omega)]
    refine ⟨rfl, Holds.realizes ?_ rfl⟩
    exact (holds.push room _).congr rfl rfl rfl
  · have full : ¬ (ctx.view data stack).stack.length < stackCapacity := room
    rw [if_neg full, if_neg (mt holds.canPush_iff.mp room)]
    exact holds.refines_fail _

/-- `pop` and `ret`. -/
theorem refines_pop (holds : ctx.Holds code data stack) {use : RegisterFile → Word → RegisterFile}
    {result : ExecutionResult}
    {outcome : ProcessModel.Outcome} (sp : ∀ registers word, (use registers word).sp = registers.sp)
    (empty : stack = [] → outcome = (ctx.view data stack).fails "stack underflow")
    (popped : ∀ word rest, stack = word :: rest → outcome = (.ok (.finished result),
      { ctx.view data rest with
        gpr := (use (ctx.registers.setSp (ctx.registers.sp + 4)) word).gpr
        pc := (use (ctx.registers.setSp (ctx.registers.sp + 4)) word).pc
        flags := (use (ctx.registers.setSp (ctx.registers.sp + 4)) word).flags })) :
    Refines code outcome (finishExecute ((ctx.popEffect use result).apply ctx)) := by
  rw [ExecutionContext.popEffect]
  cases stack with
  | nil =>
    rw [if_neg (fun room => holds.canPop_iff.mp room rfl), empty rfl]
    exact holds.refines_fail _
  | cons word stack =>
    have top := holds.sp
    have inMemory := holds.inMemory
    rw [List.length_cons] at top
    rw [if_pos (holds.canPop_iff.mpr (List.cons_ne_nil _ _)), if_pos (by omega), holds.top_word, popped word stack rfl]
    have kept : (finishExecute ((Effect.registers (use (ctx.registers.setSp (ctx.registers.sp + 4)) word) result).apply
        ctx)).2.Holds code data stack := holds.pop.congr rfl (sp _ _) rfl
    exact ⟨rfl, kept.realizes rfl⟩

/-- An operand has the same value on both levels. -/
theorem read_decode (instruction : DecodedInstruction) :
    (ctx.view data stack).read (Value.decode instruction) = readOperand instruction ctx := by
  have marker : ∀ field : RegisterIndex, field.setWidth 8 = kImmediateMarker ↔ field = 15 := by decide
  unfold Value.decode readOperand
  by_cases immediate : instruction.rs2 = 15
  · rw [if_pos immediate, if_pos ((marker _).mpr immediate)]
    rfl
  · rw [if_neg immediate, if_neg (mt (marker _).mp immediate)]
    rfl

theorem refines_mov (holds : ctx.Holds code data stack) (instruction : DecodedInstruction) :
    Refines code ((ctx.view data stack).perform (.mov instruction.rd (Value.decode instruction)))
      (finishExecute ((ctx.result instruction (readOperand instruction ctx) id).apply ctx)) := by
  rw [ProcessModel.perform, read_decode]
  exact holds.refines_registers rfl rfl

/-- The operations with two operands differ in their operator and in how they set
the flags. -/
theorem refines_binary (holds : ctx.Holds code data stack) (instruction : DecodedInstruction)
    (operator : BinaryOperator)
    {update : RegisterFile → RegisterFile}
    (sets : ∀ registers, update registers = { registers with
      flags := operator.flags registers.flags (ctx.registers.get instruction.rs1) (readOperand instruction ctx) })
    (sound : operator.fault? (readOperand instruction ctx) = none) :
    Refines code ((ctx.view data stack).perform (.binary operator instruction.rd instruction.rs1
      (Value.decode instruction)))
      (finishExecute ((ctx.result instruction
        (operator.result (ctx.registers.get instruction.rs1) (readOperand instruction ctx)) update).apply ctx)) := by
  rw [ProcessModel.perform, read_decode, sound]
  refine holds.refines_registers ?_ ?_
  · rw [sets]
    rfl
  · rw [sets]
    rfl

/-- A division by zero. -/
theorem refines_fault (holds : ctx.Holds code data stack) (instruction : DecodedInstruction) (operator : BinaryOperator)
    {message : String} (fault : operator.fault? (readOperand instruction ctx) = some message) :
    Refines code ((ctx.view data stack).perform (.binary operator instruction.rd instruction.rs1
      (Value.decode instruction)))
      (finishExecute ((Effect.fail message ctx.registers.sp).apply ctx)) := by
  rw [ProcessModel.perform, read_decode, fault]
  exact holds.refines_fail message

theorem refines_unary (holds : ctx.Holds code data stack) (instruction : DecodedInstruction) (operator : UnaryOperator)
    {update : RegisterFile → RegisterFile}
    (sets : ∀ registers, update registers = { registers with
      flags := operator.flags registers.flags (ctx.registers.get instruction.rd) }) :
    Refines code ((ctx.view data stack).perform (.unary operator instruction.rd))
      (finishExecute ((ctx.result instruction (operator.result (ctx.registers.get instruction.rd)) update).apply
        ctx)) := by
  rw [ProcessModel.perform]
  refine holds.refines_registers ?_ ?_
  · rw [sets]
    rfl
  · rw [sets]
    rfl

theorem refines_cmp (holds : ctx.Holds code data stack) (instruction : DecodedInstruction) :
    Refines code ((ctx.view data stack).perform (.cmp instruction.rs1 (Value.decode instruction)))
      (finishExecute ((Effect.registers (ctx.registers.updateFlagsSub (ctx.registers.get instruction.rs1)
        (readOperand instruction ctx) (ctx.registers.get instruction.rs1 - readOperand instruction ctx)).advancePc
          .Continue).apply ctx)) := by
  rw [ProcessModel.perform, read_decode]
  refine holds.refines_registers rfl ?_
  rw [RegisterFile.flags_advancePc, RegisterFile.flags_updateFlagsSub]
  rfl

/-- The system calls, up to the invocation of the load callback. -/
theorem refines_call (holds : ctx.Holds code data stack) (instruction : DecodedInstruction) :
    Refines code
      ((ctx.view data stack).callPerform (SyscallId.ofField? instruction.rs1) (instruction.imm.setWidth 32))
      (executeCall instruction ctx) := by
  rw [executeCall]
  cases SyscallId.ofField? instruction.rs1 with
  | none =>
    have goesOn : Refines code (.ok (.finished .Continue), (ctx.view data stack).next)
        (finishExecute ((Effect.registers ctx.registers.advancePc .Continue).apply ctx)) :=
          holds.refines_registers rfl rfl
    exact goesOn
  | some id =>
    cases id with
    | Print =>
      rw [SyscallHandler.handle, holds.readDataWord, ProcessModel.callPerform]
      dsimp only [ExecutionContext.view]
      cases ProcessModel.word? data (instruction.imm.setWidth 32).toNat with
      | none => exact holds.refines_throw _
      | some word =>
        refine ⟨rfl, Holds.realizes (holds.congr rfl rfl rfl) ?_⟩
        exact congrArg ProcessModel.next (ctx.view_print data stack word)
    | Scan =>
      have same : (ctx.view data stack).input = ctx.input := rfl
      cases left : ctx.input with
      | nil =>
        rw [left] at same
        simp only [SyscallHandler.handle, ProcessModel.callPerform, left, same]
        exact holds.refines_throw _
      | cons word input =>
        rw [left] at same
        simp only [SyscallHandler.handle, ProcessModel.callPerform, left, same]
        have taken : ExecutionContext.Holds { ctx with input := input } code data stack := holds.congr rfl rfl rfl
        rw [taken.writeDataWord]
        by_cases inside : (instruction.imm.setWidth 32 : Word).toNat + wordSize ≤ data.length
        · have fits : (instruction.imm.setWidth 32 : Word).toNat + wordSize ≤ (ctx.view data stack).data.length :=
            inside
          rw [if_pos inside, if_pos fits]
          exact ⟨rfl, Holds.realizes ((taken.putData inside word).congr rfl rfl rfl) rfl⟩
        · have refused : ¬ (instruction.imm.setWidth 32 : Word).toNat + wordSize ≤ (ctx.view data stack).data.length :=
            inside
          rw [if_neg inside, if_neg refused]
          exact ⟨rfl, Holds.realizes taken rfl⟩
    | Exit => exact ⟨rfl, Holds.realizes (holds.congr rfl rfl rfl) rfl⟩
    | Yield => exact ⟨rfl, Holds.realizes (holds.congr rfl rfl rfl) rfl⟩
    | Load =>
      have bounded : (instruction.imm.setWidth 32 : Word).toNat < 65536 := by
        rw [BitVec.toNat_setWidth]
        have := instruction.imm.isLt
        omega
      rw [SyscallHandler.handle, holds.readLoadPath _ 256 0 (by omega), ProcessModel.callPerform, Nat.add_zero]
      dsimp only [ExecutionContext.view]
      cases ProcessModel.readPath data 256 (instruction.imm.setWidth 32).toNat with
      | error e => exact holds.refines_throw e
      | ok path => exact ⟨rfl, holds.realizes rfl⟩

/-- The next instruction of the process does what its command says. This is the step
lemma of the refinement: `Holds` is kept, and the outcomes agree. -/
theorem refines (holds : ctx.Holds code data stack) (here : code[ctx.registers.pc.toNat]? = some word) :
    Refines code ((ctx.view data stack).perform (Command.decode word)) (beginInstruction ctx) := by
  rw [beginInstruction_of_fetch (holds.fetch? here), execute_eq]
  generalize decodes : decodeInstruction word = instruction
  rw [Command.decode, decodes, Command.ofInstruction]
  cases known : Opcode.ofByte? instruction.opcode with
  | none =>
    have apart : instruction.opcode ≠ Opcode.CALL.toByte := by
      intro call
      rw [call, Opcode.ofByte?_toByte] at known
      cases known
    rw [if_neg apart, effect, known]
    exact holds.refines_throw _
  | some opcode =>
    have is := Opcode.toByte_of_ofByte? known
    have result : ∀ (registers : RegisterFile) (value : Word),
        registers.updateFlags value = { registers with flags := registers.flags.ofResult value } := by
      intro registers value
      rw [← RegisterFile.flags_updateFlags]
      rfl
    have difference : ∀ (registers : RegisterFile) (lhs rhs : Word),
        registers.updateFlagsSub lhs rhs (lhs - rhs) = { registers with flags := .ofDifference lhs rhs } := by
      intro registers lhs rhs
      rw [← RegisterFile.flags_updateFlagsSub registers]
      rfl
    by_cases call : opcode = .CALL
    · subst call
      rw [if_pos is]
      exact holds.refines_call instruction
    · rw [if_neg (fun same => call (Opcode.toByte_injective (is.symm.trans same))), effect, known]
      cases opcode
      case CALL => exact absurd rfl call
      case MOV => exact holds.refines_mov instruction
      case ADD => exact holds.refines_binary instruction .add (fun _ => result _ _) rfl
      case SUB => exact holds.refines_binary instruction .sub (fun _ => difference _ _ _) rfl
      case MUL => exact holds.refines_binary instruction .mul (fun _ => result _ _) rfl
      case AND => exact holds.refines_binary instruction .and (fun _ => result _ _) rfl
      case OR => exact holds.refines_binary instruction .or (fun _ => result _ _) rfl
      case XOR => exact holds.refines_binary instruction .xor (fun _ => result _ _) rfl
      case DIV =>
        by_cases zero : readOperand instruction ctx = 0
        · dsimp only [operands]
          rw [if_pos zero]
          exact holds.refines_fault instruction .div (by rw [zero]; rfl)
        · dsimp only [operands]
          rw [if_neg zero]
          exact holds.refines_binary instruction .div (fun _ => result _ _) (BinaryOperator.fault?_nonzero zero)
      case MOD =>
        by_cases zero : readOperand instruction ctx = 0
        · dsimp only [operands]
          rw [if_pos zero]
          exact holds.refines_fault instruction .mod (by rw [zero]; rfl)
        · dsimp only [operands]
          rw [if_neg zero]
          exact holds.refines_binary instruction .mod (fun _ => result _ _) (BinaryOperator.fault?_nonzero zero)
      case CMP => exact holds.refines_cmp instruction
      case INC => exact holds.refines_unary instruction .inc (fun _ => result _ _)
      case DEC => exact holds.refines_unary instruction .dec (fun _ => difference _ _ _)
      case NOT => exact holds.refines_unary instruction .not (fun _ => result _ _)
      case JMP => exact holds.refines_registers rfl rfl
      case JE => exact holds.refines_jump instruction .equal (by rw [takeJump, known]; rfl)
      case JNE => exact holds.refines_jump instruction .notEqual (by rw [takeJump, known]; rfl)
      case JG => exact holds.refines_jump instruction .greater (by rw [takeJump, known]; rfl)
      case JGE => exact holds.refines_jump instruction .greaterEqual (by rw [takeJump, known]; rfl)
      case JL => exact holds.refines_jump instruction .less (by rw [takeJump, known]; rfl)
      case JLE => exact holds.refines_jump instruction .lessEqual (by rw [takeJump, known]; rfl)
      case LOAD => exact holds.refines_load instruction
      case STORE => exact holds.refines_store instruction
      case HALT => exact ⟨rfl, Holds.realizes (holds.congr rfl rfl rfl) rfl⟩
      case NOP => exact holds.refines_registers rfl rfl
      case PUSH =>
        have pushed := holds.refines_push (Value.decode instruction)
        rw [read_decode] at pushed
        exact pushed
      case POP =>
        refine holds.refines_pop (fun _ _ => rfl) (fun empty => ?_) (fun word rest popped => ?_)
        · subst empty
          rfl
        · subst popped
          rfl
      case RET =>
        refine holds.refines_pop (fun _ _ => rfl) (fun empty => ?_) (fun word rest popped => ?_)
        · subst empty
          rfl
        · subst popped
          rfl

end ExecutionContext.Holds

end VirtualMachine
