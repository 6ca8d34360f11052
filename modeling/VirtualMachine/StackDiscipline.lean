import VirtualMachine.FetchSafety
import VirtualMachine.Library.StackMoves
import VirtualMachine.Os.Placement

namespace VirtualMachine

open ProgramLoader TransitionSystem StackMove

/-- `executeInstruction` returns this result. -/
def Progress.Returns (result : ExecutionResult) : Except Exception Progress → Prop
  | .ok (.finished other) => other = result
  | _ => False

instance (result : ExecutionResult) :
    (outcome : Except Exception Progress) → Decidable (Progress.Returns result outcome)
  | .ok (.finished other) => inferInstanceAs (Decidable (other = result))
  | .ok (.loading _) => inferInstanceAs (Decidable False)
  | .error _ => inferInstanceAs (Decidable False)

namespace ExecutionContext

/-- What an instruction has done to the stack, by how it has ended: a successful
`PUSH` puts its operand there, a successful `POP` delivers into `rd`, and a
successful `RET` into PC. -/
def moveOf (instruction : DecodedInstruction) (ctx : ExecutionContext) :
    Except Exception Progress × ExecutionContext → StackMove Word
  | (outcome, after) =>
    match Opcode.ofByte? instruction.opcode with
    | some .PUSH => if Progress.Returns .Continue outcome then .push (readOperand instruction ctx) else .keep
    | some .POP => if Progress.Returns .Continue outcome then .pop (after.registers.get instruction.rd) else .keep
    | some .RET => if Progress.Returns .Jump outcome then .pop after.registers.pc else .keep
    | _ => .keep

/-- What the next instruction does to the stack. -/
def stackMove (ctx : ExecutionContext) : StackMove Word :=
  match ctx.fetch? with
  | none => .keep
  | some instruction => moveOf instruction ctx (beginInstruction ctx)

/-- The moves of a run, step by step. -/
def stackTrace (ctx : ExecutionContext) : List ProcessStep → List (StackMove Word)
  | [] => []
  | action :: rest => ctx.stackMove :: stackTrace (action.environment.act (ctx.advance action.loaded)) rest

/-- Nobody else writes to the stack of the process in this step. -/
def StackUntouched (ctx : ExecutionContext) (action : ProcessStep) : Prop :=
  ∀ k, ctx.process.layout.stackSegment.Contains k →
    (action.environment.act (ctx.advance action.loaded)).physical.memory k =
      (ctx.advance action.loaded).physical.memory k

/-- SP is in the stack or at its end, a whole number of words above its start. -/
structure SpInStack (ctx : ExecutionContext) : Prop where
  above : ctx.process.layout.stackAddress.toNat ≤ ctx.registers.sp.toNat
  below : ctx.registers.sp.toNat ≤ ctx.process.layout.stackAddress.toNat + ctx.process.layout.stackSize
  aligned : 4 ∣ ctx.registers.sp.toNat - ctx.process.layout.stackAddress.toNat

end ExecutionContext

/-- The stack bytes between two addresses are the same. -/
def StackKept (before after : ExecutionContext) (low high : Nat) : Prop :=
  ∀ k, before.process.layout.stackSegment.Contains k → (k < low ∨ high ≤ k) →
    after.physical.memory k = before.physical.memory k

/-- The moves, by what they do to SP and to the stack bytes. A push that fails
past the end of physical memory has moved SP. -/
inductive StackChange (before after : ExecutionContext) : StackMove Word → Prop
  | push {value : Word} (room : before.memory.canPush before.registers.sp = true)
      (inMemory : before.registers.sp.toNat ≤ before.physical.size)
      (sp : after.registers.sp = before.registers.sp - 4)
        (written : after.physical.wordAt (before.registers.sp - 4) = value)
      (kept : StackKept before after (before.registers.sp.toNat - 4) before.registers.sp.toNat) :
      StackChange before after (.push value)
  | pop (room : before.memory.canPop before.registers.sp = true)
      (sp : after.registers.sp = before.registers.sp + 4) (kept : StackKept before after 0 0) :
      StackChange before after (.pop (before.physical.wordAt before.registers.sp))
  | keep (sp : after.registers.sp = before.registers.sp ∨
        before.memory.canPush before.registers.sp = true ∧ before.physical.size < before.registers.sp.toNat ∧
          after.registers.sp = before.registers.sp - 4)
      (kept : StackKept before after 0 0) : StackChange before after .keep

namespace Effect

/-- SP stays, and a store goes to the data segment. -/
def LeavesStack (ctx : ExecutionContext) : Effect → Prop
  | registers after _ => after.sp = ctx.registers.sp
  | store address _ after => after.sp = ctx.registers.sp ∧ (ctx.process.layout.Packed → ∀ k, address.toNat ≤ k →
      k < address.toNat + 4 → ctx.process.layout.dataSegment.Contains k)
  | fail _ sp => sp = ctx.registers.sp
  | _ => True

end Effect

variable {ctx after : ExecutionContext} {instruction : DecodedInstruction}

theorem effect_leavesStack (notStack : ∀ opcode, Opcode.ofByte? instruction.opcode = some opcode →
    opcode ≠ .PUSH ∧ opcode ≠ .POP ∧ opcode ≠ .RET) : (effect instruction ctx).LeavesStack ctx := by
  unfold effect
  cases known : Opcode.ofByte? instruction.opcode with
  | none => trivial
  | some opcode =>
    have other := notStack opcode known
    cases opcode
    case PUSH => exact absurd rfl other.1
    case POP => exact absurd rfl other.2.1
    case RET => exact absurd rfl other.2.2
    case STORE =>
      simp only [ExecutionContext.storeEffect]
      by_cases access : ctx.memory.DataAccess (instruction.imm.signExtend 32)
      · rw [ProcessMemory.writeDataWord_ok _ access]
        exact ⟨rfl, fun packed k low high => dataAccess_contains access packed low high⟩
      · obtain ⟨message, refused⟩ := ProcessMemory.writeDataWord_error (ctx.registers.get instruction.rd) access
        rw [refused]
        trivial
    case LOAD =>
      simp only [ExecutionContext.loadEffect]
      split
      · trivial
      · rfl
    case DIV | MOD =>
      dsimp only
      split <;> rfl
    case JE | JNE | JG | JGE | JL | JLE =>
      dsimp only
      split <;> rfl
    all_goals first | rfl | trivial

theorem StackKept.refl (low high : Nat) : StackKept ctx ctx low high := fun _ _ _ => rfl

/-- A word written elsewhere leaves the stack alone. -/
theorem StackKept.of_putWord {address : Address} {value : Word} {low high : Nat}
    (outside : ∀ k, address.toNat ≤ k → k < address.toNat + 4 → ctx.process.layout.stackSegment.Contains k →
      low ≤ k ∧ k < high)
    (written : after.physical = ctx.physical.putWord address value) : StackKept ctx after low high := by
  intro k inside apart
  rw [written]
  apply PhysicalMemory.memory_putWord_outside
  by_contra within
  have between := outside k (by omega) (by omega) inside
  omega

theorem Effect.LeavesStack.change {effect : Effect} (leaves : effect.LeavesStack ctx)
    (packed : ctx.process.layout.Packed) : StackChange ctx (effect.apply ctx).2 .keep := by
  cases effect with
  | registers after result => exact .keep (Or.inl leaves) (.refl 0 0)
  | store address value after =>
    refine .keep (Or.inl leaves.1) (.of_putWord ?_ rfl)
    intro k low high inside
    exact absurd (leaves.2 packed k low high) (packed.stack_not_data inside)
  | halt => exact .keep (Or.inl rfl) (.refl 0 0)
  | fail message sp => exact .keep (Or.inl leaves) (.refl 0 0)
  | throw e => exact .keep (Or.inl rfl) (.refl 0 0)

/-- The change depends on SP and on the memory only. -/
theorem StackChange.congr {other : ExecutionContext} {move : StackMove Word} (change : StackChange ctx after move)
    (sp : other.registers.sp = after.registers.sp) (physical : other.physical = after.physical) :
    StackChange ctx other move := by
  have bytes : ∀ {low high}, StackKept ctx after low high → StackKept ctx other low high := by
    intro low high kept k inside apart
    rw [physical]
    exact kept k inside apart
  cases change with
  | push room inMemory moved written kept =>
    exact .push room inMemory (sp.trans moved) (by rw [physical]; exact written) (bytes kept)
  | pop room moved kept => exact .pop room (sp.trans moved) (bytes kept)
  | keep moved kept =>
    refine .keep ?_ (bytes kept)
    rw [sp]
    exact moved

namespace ExecutionContext

theorem pushEffect_change (ctx : ExecutionContext) (value : Word) :
    (∃ pushed, (ctx.pushEffect value).apply ctx = (.ok .Continue, pushed) ∧ StackChange ctx pushed (.push value)) ∨
      ∃ failed, (ctx.pushEffect value).apply ctx = (.ok .Error, failed) ∧ StackChange ctx failed .keep := by
  unfold pushEffect
  dsimp only
  by_cases room : ctx.memory.canPush ctx.registers.sp = true
  · obtain ⟨low, high⟩ := ProcessMemory.canPush_iff.mp room
    have lower : (ctx.registers.sp - 4).toNat = ctx.registers.sp.toNat - 4 := ProcessMemory.toNat_sub_four (by omega)
    rw [if_pos room]
    by_cases inMemory : ctx.registers.sp.toNat ≤ ctx.physical.size
    · rw [if_pos inMemory]
      refine Or.inl ⟨_, rfl, .push room inMemory rfl (PhysicalMemory.wordAt_putWord_same value) ?_⟩
      refine .of_putWord ?_ rfl
      intro k above below inside
      omega
    · rw [if_neg inMemory]
      exact Or.inr ⟨_, rfl, .keep (Or.inr ⟨room, Nat.lt_of_not_le inMemory, rfl⟩) (.refl 0 0)⟩
  · rw [if_neg room]
    exact Or.inr ⟨_, rfl, .keep (Or.inl rfl) (.refl 0 0)⟩

theorem popEffect_change (ctx : ExecutionContext) (use : RegisterFile → Word → RegisterFile) (result : ExecutionResult)
    (keepsSp : ∀ registers value, (use registers value).sp = registers.sp) :
    (∃ popped, (ctx.popEffect use result).apply ctx = (.ok result, popped) ∧
        popped.registers = use (ctx.registers.setSp (ctx.registers.sp + 4)) (ctx.physical.wordAt ctx.registers.sp) ∧
        StackChange ctx popped (.pop (ctx.physical.wordAt ctx.registers.sp))) ∨
      ∃ failed, (ctx.popEffect use result).apply ctx = (.ok .Error, failed) ∧ StackChange ctx failed .keep := by
  unfold popEffect
  dsimp only
  by_cases room : ctx.memory.canPop ctx.registers.sp = true
  · rw [if_pos room]
    by_cases inMemory : ctx.registers.sp.toNat + 4 ≤ ctx.physical.size
    · rw [if_pos inMemory]
      exact Or.inl ⟨_, rfl, rfl, .pop room (keepsSp _ _) (.refl 0 0)⟩
    · rw [if_neg inMemory]
      exact Or.inr ⟨_, rfl, .keep (Or.inl rfl) (.refl 0 0)⟩
  · rw [if_neg room]
    exact Or.inr ⟨_, rfl, .keep (Or.inl rfl) (.refl 0 0)⟩

end ExecutionContext

theorem executeCall_change (instruction : DecodedInstruction) (ctx : ExecutionContext)
    (packed : ctx.process.layout.Packed) : StackChange ctx (executeCall instruction ctx).2 .keep := by
  have same : StackChange ctx ctx .keep := .keep (Or.inl rfl) (.refl 0 0)
  have finish : ∀ id handled, StackChange ctx handled .keep → StackChange ctx (finishCall id handled).2 .keep := by
    intro id handled change
    unfold finishCall
    dsimp only
    split
    · exact change.congr rfl rfl
    · split <;> exact change.congr rfl rfl
  unfold executeCall SyscallHandler.handle
  dsimp only
  cases SyscallId.ofField? instruction.rs1 with
  | none => exact finish none ctx same
  | some id =>
    cases id
    case Print =>
      dsimp only
      cases ctx.memory.readDataWord (instruction.imm.setWidth 32) with
      | error e => exact same
      | ok value => exact finish (some .Print) _ (same.congr rfl rfl)
    case Scan =>
      dsimp only
      cases ctx.input with
      | nil => exact same
      | cons value rest =>
        dsimp only
        by_cases access : ctx.memory.DataAccess (instruction.imm.setWidth 32)
        · have written : ({ ctx with input := rest } : ExecutionContext).memory.writeDataWord
              (instruction.imm.setWidth 32) value =
                .ok (ctx.physical.putWord (ctx.process.layout.dataAddress + instruction.imm.setWidth 32) value) :=
            ProcessMemory.writeDataWord_ok value access
          rw [written]
          refine finish (some .Scan) _ (.keep (Or.inl rfl) (.of_putWord ?_ rfl))
          intro k low high inside
          exact absurd (dataAccess_contains access packed low high) (packed.stack_not_data inside)
        · obtain ⟨message, refused⟩ := ProcessMemory.writeDataWord_error value access
          have failed : ({ ctx with input := rest } : ExecutionContext).memory.writeDataWord
              (instruction.imm.setWidth 32) value = .error (.vmException message) := refused
          rw [failed]
          exact same.congr rfl rfl
    case Exit => exact finish (some .Exit) _ (same.congr rfl rfl)
    case Yield => exact finish (some .Yield) _ (same.congr rfl rfl)
    case Load =>
      dsimp only
      cases SyscallHandler.readLoadPath ctx.memory (instruction.imm.setWidth 32) 256 0 <;> exact same

namespace ExecutionContext

/-- The instructions of the registry change the stack as their moves say. -/
theorem execute_change (ctx : ExecutionContext) (instruction : DecodedInstruction)
    (packed : ctx.process.layout.Packed) :
    StackChange ctx (finishExecute (InstructionRegistry.execute instruction ctx)).2
      (moveOf instruction ctx (finishExecute (InstructionRegistry.execute instruction ctx))) := by
  have others : (∀ opcode, Opcode.ofByte? instruction.opcode = some opcode → opcode ≠ .PUSH ∧ opcode ≠ .POP ∧
    opcode ≠ .RET) →
      StackChange ctx (finishExecute ((effect instruction ctx).apply ctx)).2 .keep := by
    intro notStack
    have change := (effect_leavesStack notStack).change packed
    revert change
    rcases (effect instruction ctx).apply ctx with ⟨_ | result, after⟩
    · exact fun change => change
    · exact fun change => change.congr rfl rfl
  rw [execute_eq]
  unfold moveOf
  cases known : Opcode.ofByte? instruction.opcode with
  | none =>
    refine others fun opcode same => ?_
    rw [known] at same
    cases same
  | some opcode =>
    cases opcode
    case PUSH =>
      have table : effect instruction ctx = ctx.pushEffect (readOperand instruction ctx) := by
        rw [effect, known]
        rfl
      rw [table]
      rcases ctx.pushEffect_change (readOperand instruction ctx) with ⟨pushed, ran, change⟩ | ⟨failed, ran, change⟩
      · rw [ran]
        exact change.congr rfl rfl
      · rw [ran]
        exact change.congr rfl rfl
    case POP =>
      have table : effect instruction ctx =
          ctx.popEffect (fun registers value => (registers.set instruction.rd value).advancePc) .Continue := by
        rw [effect, known]
      rw [table]
      rcases ctx.popEffect_change (fun registers value => (registers.set instruction.rd value).advancePc) .Continue
        (fun _ _ => rfl) with ⟨popped, ran, registers, change⟩ | ⟨failed, ran, change⟩
      · have delivered : popped.registers.get instruction.rd = ctx.physical.wordAt ctx.registers.sp := by
          rw [registers]
          exact RegisterFile.get_set_same _ _ _
        rw [← delivered] at change
        rw [ran]
        exact change.congr rfl rfl
      · rw [ran]
        exact change.congr rfl rfl
    case RET =>
      have table : effect instruction ctx = ctx.popEffect (fun registers value => registers.setPc value) .Jump := by
        rw [effect, known]
      rw [table]
      rcases ctx.popEffect_change (fun registers value => registers.setPc value) .Jump (fun _ _ => rfl) with
        ⟨popped, ran, registers, change⟩ | ⟨failed, ran, change⟩
      · have delivered : popped.registers.pc = ctx.physical.wordAt ctx.registers.sp :=
          congrArg RegisterFile.pc registers
        rw [← delivered] at change
        rw [ran]
        exact change.congr rfl rfl
      · rw [ran]
        exact change.congr rfl rfl
    all_goals
      refine others fun opcode same => ?_
      rw [known] at same
      cases same
      decide

/-- Every instruction changes the stack as its move says. -/
theorem beginInstruction_change (ctx : ExecutionContext) (packed : ctx.process.layout.Packed) :
    StackChange ctx (beginInstruction ctx).2 ctx.stackMove := by
  unfold stackMove
  cases fetched : ctx.fetch? with
  | none =>
    rw [beginInstruction_of_fetch_none fetched]
    exact .keep (Or.inl rfl) (.refl 0 0)
  | some instruction =>
    dsimp only
    rw [beginInstruction_of_fetch fetched]
    by_cases call : instruction.opcode = Opcode.CALL.toByte
    · have known : Opcode.ofByte? instruction.opcode = some .CALL := by rw [call, Opcode.ofByte?_toByte]
      have change := executeCall_change instruction ctx packed
      rw [if_pos call, moveOf, known]
      exact change
    · rw [if_neg call]
      exact ctx.execute_change instruction packed

theorem advance_change (loaded : Bool) (ctx : ExecutionContext) (packed : ctx.process.layout.Packed) :
    StackChange ctx (ctx.advance loaded) ctx.stackMove := by
  have change := ctx.beginInstruction_change packed
  unfold advance
  revert change
  rcases beginInstruction ctx with ⟨e | result | path, after⟩
  · exact fun change => change
  · exact fun change => change
  · intro change
    unfold afterCallback
    dsimp only
    split
    · exact change.congr rfl rfl
    · exact change

/-- What a run needs to keep the discipline: a layout from the loader, and SP in the stack. -/
structure StackSound (ctx : ExecutionContext) : Prop where
  packed : ctx.process.layout.Packed
  sp : ctx.SpInStack

/-- The words above SP, from the top down, are those of an abstract stack. -/
structure Represents (ctx : ExecutionContext) (stack : List Word) : Prop extends ctx.StackSound where
  words : ∀ i value, stack[i]? = some value →
    ctx.registers.sp.toNat + 4 * i + 4 ≤ ctx.process.layout.stackAddress.toNat + ctx.process.layout.stackSize ∧
    ctx.registers.sp.toNat + 4 * i + 4 ≤ ctx.physical.size ∧
    ∀ address : Address, address.toNat = ctx.registers.sp.toNat + 4 * i → ctx.physical.wordAt address = value

theorem StackSound.represents_nil (sound : ctx.StackSound) : ctx.Represents [] where
  toStackSound := sound
  words := by
    intro i value impossible
    cases impossible

section Step

variable {next : ExecutionContext} {stack : List Word} {move : StackMove Word}

/-- SP stays in the stack and aligned, whatever the instruction does. -/
theorem SpInStack.change (sp : ctx.SpInStack) (packed : ctx.process.layout.Packed) (change : StackChange ctx next move)
    (layout : next.process.layout = ctx.process.layout) : next.SpInStack := by
  obtain ⟨above, below, aligned⟩ := sp
  have down : ctx.memory.canPush ctx.registers.sp = true → next.registers.sp = ctx.registers.sp - 4 →
    next.SpInStack := by
    intro room moved
    have low : ctx.process.layout.stackAddress.toNat + 4 ≤ ctx.registers.sp.toNat :=
      (ProcessMemory.canPush_iff.mp room).1
    have lower : (ctx.registers.sp - 4).toNat = ctx.registers.sp.toNat - 4 := ProcessMemory.toNat_sub_four (by omega)
    refine ⟨?_, ?_, ?_⟩ <;> rw [layout, moved, lower] <;> omega
  cases change with
  | push room inMemory moved written kept => exact down room moved
  | pop room moved kept =>
    have high : ctx.registers.sp.toNat + 4 ≤ ctx.process.layout.stackAddress.toNat + ctx.process.layout.stackSize :=
      (ProcessMemory.canPop_iff.mp room).2
    have higher := MemoryRegionLayout.Packed.toNat_add_four packed room
    refine ⟨?_, ?_, ?_⟩ <;> rw [layout, moved, higher] <;> omega
  | keep moved kept =>
    rcases moved with same | ⟨room, outside, moved⟩
    · refine ⟨?_, ?_, ?_⟩ <;> rw [layout, same] <;> assumption
    · exact down room moved

/-- A word of the stack that the change spares is still there. -/
theorem Represents.word_kept {i low high : Nat} {value : Word} (represents : ctx.Represents stack)
    (kept : StackKept ctx next low high) (at? : stack[i]? = some value)
    (apart : high ≤ ctx.registers.sp.toNat + 4 * i) {address : Address}
    (here : address.toNat = ctx.registers.sp.toNat + 4 * i) : next.physical.wordAt address = value := by
  obtain ⟨inStack, -, word⟩ := represents.words i value at?
  have above := represents.sp.above
  rw [← word address here]
  apply PhysicalMemory.wordAt_congr
  intro k lower upper
  refine kept k ?_ (Or.inr (by omega))
  rw [represents.packed.stackSegment_eq]
  exact ⟨by dsimp only; omega, by simp only [Segment.finish]; omega⟩

/-- The code simulates the abstract stack, as long as it does not pop what the
abstract stack does not have. -/
theorem Represents.step (represents : ctx.Represents stack) (change : StackChange ctx next move)
    (layout : next.process.layout = ctx.process.layout) (size : next.physical.size = ctx.physical.size)
    (room : 0 ≤ stack.length + move.height) : ∃ after, Step stack move after ∧ next.Represents after := by
  have sound : next.StackSound :=
    ⟨by rw [layout]; exact represents.packed, represents.sp.change represents.packed change layout⟩
  cases change with
  | @push value canPush inMemory moved written kept =>
    obtain ⟨low, high⟩ := ProcessMemory.canPush_iff.mp canPush
    have lower : (ctx.registers.sp - 4).toNat = ctx.registers.sp.toNat - 4 := ProcessMemory.toNat_sub_four (by omega)
    refine ⟨value :: stack, .push stack value, sound, ?_⟩
    intro i word at?
    rw [moved, lower, layout, size]
    cases i with
    | zero =>
      cases at?
      refine ⟨by simp only [ExecutionContext.memory] at high; omega, by omega, fun address here => ?_⟩
      have same : address = ctx.registers.sp - 4 := BitVec.eq_of_toNat_eq (by omega)
      rw [same, written]
    | succ i =>
      have old : stack[i]? = some word := at?
      obtain ⟨inStack, inside, -⟩ := represents.words i word old
      refine ⟨by omega, by omega, fun address here => ?_⟩
      exact represents.word_kept kept old (by omega) (by omega)
  | pop canPop moved kept =>
    obtain ⟨low, high⟩ := ProcessMemory.canPop_iff.mp canPop
    cases stack with
    | nil => exact absurd room (by simp [height])
    | cons top stack =>
      have delivered : ctx.physical.wordAt ctx.registers.sp = top := (represents.words 0 top rfl).2.2 _ rfl
      have higher := MemoryRegionLayout.Packed.toNat_add_four represents.packed canPop
      rw [delivered]
      refine ⟨stack, .pop stack top, sound, ?_⟩
      intro i word at?
      have old : (top :: stack)[i + 1]? = some word := at?
      obtain ⟨inStack, inside, -⟩ := represents.words (i + 1) word old
      rw [moved, higher, layout, size]
      refine ⟨by omega, by omega, fun address here => ?_⟩
      exact represents.word_kept kept old (by omega) (by omega)
  | keep moved kept =>
    refine ⟨stack, .keep stack, sound, ?_⟩
    intro i word at?
    obtain ⟨inStack, inside, -⟩ := represents.words i word at?
    -- A push that fails past the end of memory finds no word of the stack above SP.
    have same : next.registers.sp = ctx.registers.sp := by
      rcases moved with same | ⟨-, outside, -⟩
      · exact same
      · omega
    rw [same, layout, size]
    exact ⟨inStack, inside, fun address here => represents.word_kept kept at? (by omega) here⟩

end Step

/-- The same with what follows the instruction, which leaves the stack alone. -/
theorem Represents.processStep {stack : List Word} {action : ProcessStep} (represents : ctx.Represents stack)
    (untouched : ctx.StackUntouched action) (room : 0 ≤ stack.length + ctx.stackMove.height) :
    ∃ after, Step stack ctx.stackMove after ∧
      (action.environment.act (ctx.advance action.loaded)).Represents after := by
  have frame := ctx.advance_frame action.loaded
  have change := ctx.advance_change action.loaded represents.packed
  obtain ⟨after, step, sound, words⟩ := represents.step change frame.layout frame.size room
  have registers := action.environment.registers (ctx.advance action.loaded)
  have layout := action.environment.layout (ctx.advance action.loaded)
  have size := action.environment.size (ctx.advance action.loaded)
  refine ⟨after, step, ⟨by rw [layout]; exact sound.packed, ?_⟩, ?_⟩
  · obtain ⟨above, below, aligned⟩ := sound.sp
    refine ⟨?_, ?_, ?_⟩ <;> rw [layout, registers] <;> assumption
  · intro i value at?
    obtain ⟨inStack, inside, word⟩ := words i value at?
    rw [registers, layout, size]
    refine ⟨inStack, inside, fun address here => ?_⟩
    rw [← word address here]
    apply PhysicalMemory.wordAt_congr
    intro k low high
    have above := sound.sp.above
    refine untouched k ?_
    rw [← frame.layout, sound.packed.stackSegment_eq]
    exact ⟨by dsimp only; omega, by simp only [Segment.finish]; omega⟩

theorem StackSound.processStep {action : ProcessStep} (sound : ctx.StackSound) :
    (action.environment.act (ctx.advance action.loaded)).StackSound := by
  have frame := ctx.advance_frame action.loaded
  have layout := (action.environment.layout (ctx.advance action.loaded)).trans frame.layout
  obtain ⟨above, below, aligned⟩ :=
    sound.sp.change sound.packed (ctx.advance_change action.loaded sound.packed) frame.layout
  refine ⟨by rw [layout]; exact sound.packed, ?_, ?_, ?_⟩ <;>
    rw [action.environment.layout, action.environment.registers] <;> assumption

/-- A run simulates the run of the abstract stack over its moves. -/
theorem Represents.run {stack : List Word} {steps : List ProcessStep} (represents : ctx.Represents stack)
    (untouched : Guarded ExecutionContext.processStep StackUntouched ctx steps)
    (stays : StaysAbove stack.length (ctx.stackTrace steps)) : ∃ final, Run stack (ctx.stackTrace steps) final := by
  induction steps generalizing ctx stack with
  | nil => exact ⟨stack, .done stack⟩
  | cons action steps ih =>
    obtain ⟨after, step, next⟩ := represents.processStep untouched.1 stays.head
    obtain ⟨final, run⟩ := ih next (untouched.2 _ rfl) (stays.tail step.length)
    exact ⟨final, .next step run⟩

/-- A part of the trace is the trace of a part of the run. -/
theorem stackTrace_append {steps : List ProcessStep} {first last : List (StackMove Word)}
    (parts : ctx.stackTrace steps = first ++ last) :
    ∃ before after reached, steps = before ++ after ∧ run ExecutionContext.processStep ctx before = some reached ∧
      ctx.stackTrace before = first ∧ reached.stackTrace after = last := by
  induction first generalizing ctx steps with
  | nil => exact ⟨[], steps, ctx, rfl, rfl, rfl, parts⟩
  | cons move first ih =>
    cases steps with
    | nil => cases parts
    | cons action steps =>
      obtain ⟨same, rest⟩ := List.cons.inj parts
      obtain ⟨before, after, reached, rfl, ran, traced, remaining⟩ := ih rest
      refine ⟨action :: before, after, reached, rfl, run_cons_iff.mpr ⟨_, rfl, ran⟩, ?_, remaining⟩
      rw [stackTrace, same, traced]

theorem stackSound_of_run {steps : List ProcessStep} {reached : ExecutionContext} (sound : ctx.StackSound)
    (ran : TransitionSystem.run ExecutionContext.processStep ctx steps = some reached) : reached.StackSound := by
  refine run_invariant_of_step ?_ sound ran
  intro before action next sound taken
  cases taken
  exact sound.processStep

/-- What a pop delivers is what the push that it matches has put there. -/
theorem StackSound.matched {steps : List ProcessStep} {middle : List (StackMove Word)} {value word : Word}
    (sound : ctx.StackSound) (untouched : Guarded ExecutionContext.processStep StackUntouched ctx steps)
    (traced : ctx.stackTrace steps = .push value :: (middle ++ [.pop word])) (bracketed : WellBracketed middle) :
    word = value := by
  have stays : StaysAbove ([] : List Word).length (ctx.stackTrace steps) := by
    rw [traced]
    exact bracketed.staysAbove_matched value word
  obtain ⟨final, pushPop⟩ := sound.represents_nil.run untouched stays
  rw [traced] at pushPop
  exact pushPop.matched bracketed

/-- A process as it is emplaced has room for one word above SP. -/
theorem stackSound_ofLoaded {os : VirtualOS} {layout : MemoryRegionLayout} {id : ProcessId} (placed : layout.Placed) :
    (ofLoaded os layout id).StackSound := by
  have sp := placed.initialStackPointer
  have stackSize := placed.stackSize
  have size : kStackSize = 4096 := rfl
  refine ⟨placed.toPacked, ?_, ?_, ?_⟩
  · show layout.stackAddress.toNat ≤ (VirtualOS.initialStackPointer layout).toNat
    omega
  · show (VirtualOS.initialStackPointer layout).toNat ≤ layout.stackAddress.toNat + layout.stackSize
    omega
  · show 4 ∣ (VirtualOS.initialStackPointer layout).toNat - layout.stackAddress.toNat
    omega

/-- Stack discipline over every run of a loaded process in which nobody else
writes to its stack: SP stays in the stack and aligned, and what a pop or a
return delivers is what the push that it matches has put there. -/
theorem stack_discipline {os : VirtualOS} {program : AssembledProgram} {layout : MemoryRegionLayout}
    {physical : PhysicalMemory} (size : os.physicalMemory.size = kDefaultPhysicalMemorySize)
    (loaded : load os.physicalMemory program = (.ok layout, physical)) (id : ProcessId) {steps : List ProcessStep}
    (untouched : Guarded processStep StackUntouched (ofLoaded (os.emplaced physical layout) layout id) steps) :
    (∀ before reached, before <+: steps →
        run processStep (ofLoaded (os.emplaced physical layout) layout id) before = some reached → reached.SpInStack) ∧
      ∀ earlier middle later value word,
        (ofLoaded (os.emplaced physical layout) layout id).stackTrace steps =
          earlier ++ .push value :: (middle ++ .pop word :: later) →
        WellBracketed middle → word = value := by
  have sound : (ofLoaded (os.emplaced physical layout) layout id).StackSound :=
    stackSound_ofLoaded (load_placed size loaded)
  refine ⟨fun before reached earlier ran => (stackSound_of_run sound ran).sp, ?_⟩
  intro earlier middle later value word traced bracketed
  obtain ⟨before, rest, reached, rfl, ran, -, remaining⟩ := stackTrace_append traced
  have matched : reached.stackTrace rest = (.push value :: (middle ++ [.pop word])) ++ later := by
    rw [remaining]
    simp
  obtain ⟨during, after, -, rfl, -, inside, -⟩ := stackTrace_append matched
  have guarded := (guarded_append_iff.mp untouched).2 reached ran
  exact (stackSound_of_run sound ran).matched (guarded_append_iff.mp guarded).1 inside bracketed

/-- `push 7` and `pop r1`. -/
def pushPop : AssembledProgram := ⟨[0x1900F007, 0x1A100000], []⟩

theorem stack_discipline_pushPop :
    ∃ layout physical word, load {} pushPop = (.ok layout, physical) ∧
      (ofLoaded ((VirtualOS.create 100 []).emplaced physical layout) layout 1).stackTrace
        [⟨true, .idle⟩, ⟨true, .idle⟩] = [.push 7, .pop word] ∧ word = 7 := by
  have loads : Loads {} pushPop := by decide
  obtain ⟨physical, loaded, -⟩ := load_of_loads loads (by decide)
  have traced : (ofLoaded ((VirtualOS.create 100 []).emplaced (load {} pushPop).2 (layoutFor 0 pushPop))
      (layoutFor 0 pushPop) 1).stackTrace [⟨true, .idle⟩, ⟨true, .idle⟩] = [.push 7, .pop 7] := by decide +kernel
  rw [loaded] at traced
  have untouched : Guarded processStep StackUntouched
      (ofLoaded ((VirtualOS.create 100 []).emplaced physical (layoutFor 0 pushPop)) (layoutFor 0 pushPop) 1)
      [⟨true, .idle⟩, ⟨true, .idle⟩] := ⟨fun _ _ => rfl, fun _ _ => ⟨fun _ _ => rfl, fun _ _ => trivial⟩⟩
  have size : (VirtualOS.create 100 []).physicalMemory.size = kDefaultPhysicalMemorySize := rfl
  have disciplined := stack_discipline size loaded 1 untouched
  refine ⟨_, physical, 7, loaded, traced, ?_⟩
  exact disciplined.2 [] [] [] 7 7 traced ⟨fun before earlier => by simp [List.prefix_nil.mp earlier], rfl⟩

end ExecutionContext

end VirtualMachine
