import VirtualMachine.Cpu.InstructionFrame

namespace VirtualMachine

namespace ExecutionContext

/-- A handler of the registry is found and does not throw: `LOAD` and `STORE`
are the only ones that let an exception out. -/
def HandlerCompletes (ctx : ExecutionContext) (instruction : DecodedInstruction) : Prop :=
  match Opcode.ofByte? instruction.opcode with
  | none | some .CALL => False
  | some .LOAD | some .STORE => ctx.memory.DataAccess (instruction.imm.signExtend 32)
  | some _ => True

/-- The syscall handler does not throw, its load callback aside. -/
def CallCompletes (ctx : ExecutionContext) (instruction : DecodedInstruction) : Prop :=
  let argAddress : Word := instruction.imm.setWidth 32
  match SyscallId.ofField? instruction.rs1 with
  | some .Print => ctx.memory.DataAccess argAddress
  | some .Scan => ctx.input ≠ [] ∧ ctx.memory.DataAccess argAddress
  | some .Load => (SyscallHandler.readLoadPath ctx.memory argAddress 256 0).isOk = true
  | _ => True

/-- The next instruction does not throw, its load callback aside. -/
def Completes (ctx : ExecutionContext) : Prop :=
  match ctx.fetch? with
  | none => False
  | some instruction =>
    if instruction.opcode = Opcode.CALL.toByte then ctx.CallCompletes instruction else ctx.HandlerCompletes instruction

/-- What completes is the branch of `executeInstruction` for the instruction
that is fetched: the system call of a `CALL`, and otherwise the handler. -/
theorem Completes.call {ctx : ExecutionContext} {instruction : DecodedInstruction} (completes : ctx.Completes)
    (fetched : ctx.fetch? = some instruction) (call : instruction.opcode = Opcode.CALL.toByte) :
    ctx.CallCompletes instruction := by
  rw [Completes, fetched] at completes
  dsimp only at completes
  rwa [if_pos call] at completes

theorem Completes.handler {ctx : ExecutionContext} {instruction : DecodedInstruction} (completes : ctx.Completes)
    (fetched : ctx.fetch? = some instruction) (other : Opcode.ofByte? instruction.opcode ≠ some .CALL) :
    ctx.HandlerCompletes instruction := by
  have noCall : instruction.opcode ≠ Opcode.CALL.toByte := by
    intro call
    rw [call, Opcode.ofByte?_toByte] at other
    exact other rfl
  rw [Completes, fetched] at completes
  dsimp only at completes
  rwa [if_neg noCall] at completes

/-- A process whose next instruction throws cannot get past it, with no more
input than before. -/
theorem Completes.of_same {ctx other : ExecutionContext} (completes : other.Completes)
    (process : other.process = ctx.process) (physical : other.physical = ctx.physical)
    (input : ctx.input = [] → other.input = []) : ctx.Completes := by
  obtain ⟨_, _, left, output⟩ := ctx
  obtain ⟨block, memory, more, printed⟩ := other
  dsimp only at *
  subst process physical
  have fetched : (⟨block, memory, more, printed⟩ : ExecutionContext).fetch? =
    (⟨block, memory, left, output⟩ : ExecutionContext).fetch? := rfl
  unfold Completes at *
  rw [fetched] at completes
  revert completes
  cases (⟨block, memory, left, output⟩ : ExecutionContext).fetch? with
  | none => exact fun impossible => impossible
  | some instruction =>
    dsimp only
    split
    · unfold CallCompletes
      dsimp only
      rcases SyscallId.ofField? instruction.rs1 with _ | id
      · exact fun done => done
      · cases id
        case Scan => exact fun done => ⟨fun empty => done.1 (input empty), done.2⟩
        all_goals exact fun done => done
    · exact fun done => done

/-- The path that the next instruction hands to the load callback. -/
def loadPath? (ctx : ExecutionContext) : Option (List Byte) :=
  ctx.fetch?.bind (fun instruction =>
    if instruction.opcode = Opcode.CALL.toByte ∧ SyscallId.ofField? instruction.rs1 = some .Load then
      (SyscallHandler.readLoadPath ctx.memory (instruction.imm.setWidth 32) 256 0).toOption
    else none)

/-- A load system call whose path can be read hands it over. -/
theorem loadPath?_of_read {ctx : ExecutionContext} {instruction : DecodedInstruction} {path : List Byte}
    (fetched : ctx.fetch? = some instruction) (call : instruction.opcode = Opcode.CALL.toByte)
    (id : SyscallId.ofField? instruction.rs1 = some .Load)
    (read : SyscallHandler.readLoadPath ctx.memory (instruction.imm.setWidth 32) 256 0 = .ok path) :
    ctx.loadPath? = some path := by
  rw [loadPath?, fetched, Option.bind_some, if_pos ⟨call, id⟩, read]
  rfl

theorem completes_of_loadPath? {ctx : ExecutionContext} {path : List Byte} (load : ctx.loadPath? = some path) :
    ctx.Completes := by
  obtain ⟨instruction, fetched, read⟩ := Option.bind_eq_some_iff.mp load
  split at read
  · rename_i isLoad
    rw [Completes, fetched]
    dsimp only
    rw [if_pos isLoad.1, CallCompletes, isLoad.2]
    dsimp only
    cases outcome : SyscallHandler.readLoadPath ctx.memory (instruction.imm.setWidth 32) 256 0 with
    | error e =>
      rw [outcome] at read
      cases read
    | ok path => rfl
  · cases read

end ExecutionContext

/-- How an instruction can end, before any load callback. -/
inductive InstructionOutcome (ctx : ExecutionContext) : Except Exception Progress × ExecutionContext → Prop
  | threw {e after} (fails : ¬ ctx.Completes) (process : after.process = ctx.process)
      (physical : after.physical = ctx.physical) (input : ctx.input = [] → after.input = []) :
      InstructionOutcome ctx (.error e, after)
  | finished {result after} (completes : ctx.Completes) (noLoad : ctx.loadPath? = none)
      (failed : result = .Error → after.process.lastError.isSome = true)
      (halted : result = .Halt → after.process.context.halted = true)
      (alive : result ≠ .Halt →
        after.process.state = ctx.process.state ∧ after.process.context.halted = ctx.process.context.halted) :
      InstructionOutcome ctx (.ok (.finished result), after)
  | loading {path} (completes : ctx.Completes) (load : ctx.loadPath? = some path) :
      InstructionOutcome ctx (.ok (.loading path), ctx)

namespace Effect

/-- The outcome of an effect agrees with whether its handler throws. -/
def Agrees (completes : Prop) : Effect → Prop
  | throw _ => ¬ completes
  | registers _ result => completes ∧ result ≠ .Error ∧ result ≠ .Halt
  | _ => completes

end Effect

open ExecutionContext

theorem effect_agrees (instruction : DecodedInstruction) (ctx : ExecutionContext) :
    (effect instruction ctx).Agrees (ctx.HandlerCompletes instruction) := by
  unfold effect HandlerCompletes
  have continues : ExecutionResult.Continue ≠ .Error ∧ ExecutionResult.Continue ≠ .Halt := by decide
  have jumps : ExecutionResult.Jump ≠ .Error ∧ ExecutionResult.Jump ≠ .Halt := by decide
  cases Opcode.ofByte? instruction.opcode with
  | none => exact fun completes => completes
  | some opcode =>
    cases opcode
    case CALL => exact fun completes => completes
    case JMP => exact ⟨trivial, jumps⟩
    case HALT => trivial
    case DIV | MOD =>
      dsimp only
      split
      · trivial
      · exact ⟨trivial, continues⟩
    case JE | JNE | JG | JGE | JL | JLE =>
      dsimp only
      split
      · exact ⟨trivial, jumps⟩
      · exact ⟨trivial, continues⟩
    case LOAD =>
      by_cases access : ctx.memory.DataAccess (instruction.imm.signExtend 32)
      · simp only [loadEffect, ProcessMemory.readDataWord_ok access]
        exact ⟨access, continues⟩
      · obtain ⟨message, refused⟩ := ProcessMemory.readDataWord_error access
        simp only [loadEffect, refused]
        exact access
    case STORE =>
      by_cases access : ctx.memory.DataAccess (instruction.imm.signExtend 32)
      · simp only [storeEffect, ProcessMemory.writeDataWord_ok _ access]
        exact access
      · obtain ⟨message, refused⟩ := ProcessMemory.writeDataWord_error (ctx.registers.get instruction.rd) access
        simp only [storeEffect, refused]
        exact access
    case PUSH =>
      simp only [pushEffect]
      repeat' split
      all_goals trivial
    case POP | RET =>
      simp only [popEffect]
      repeat' split
      all_goals trivial
    all_goals exact ⟨trivial, continues⟩

variable {ctx : ExecutionContext} {instruction : DecodedInstruction}

theorem finishExecute_outcome (fetched : ctx.fetch? = some instruction)
    (registered : instruction.opcode ≠ Opcode.CALL.toByte) :
    InstructionOutcome ctx (finishExecute (InstructionRegistry.execute instruction ctx)) := by
  have completes : ctx.Completes = ctx.HandlerCompletes instruction := by
    simp only [Completes, fetched, if_neg registered]
  have noLoad : ctx.loadPath? = none := by
    simp [loadPath?, fetched, registered]
  have agrees := effect_agrees instruction ctx
  rw [← completes] at agrees
  rw [execute_eq]
  revert agrees
  cases effect instruction ctx with
  | throw e => exact fun fails => .threw fails rfl rfl (fun empty => empty)
  | registers after result =>
    rintro ⟨done, noError, noHalt⟩
    exact .finished done noLoad (fun error => absurd error noError) (fun halt => absurd halt noHalt)
      (fun _ => ⟨rfl, rfl⟩)
  | store address value after =>
    exact fun done => .finished done noLoad (fun error => nomatch error) (fun halt => nomatch halt)
      (fun _ => ⟨rfl, rfl⟩)
  | halt =>
    exact fun done => .finished done noLoad (fun error => nomatch error) (fun _ => rfl) (fun alive => absurd rfl alive)
  | fail message sp =>
    exact fun done => .finished done noLoad (fun _ => rfl) (fun halt => nomatch halt) (fun _ => ⟨rfl, rfl⟩)

theorem executeCall_outcome (fetched : ctx.fetch? = some instruction)
    (call : instruction.opcode = Opcode.CALL.toByte) : InstructionOutcome ctx (executeCall instruction ctx) := by
  have completes : ctx.Completes = ctx.CallCompletes instruction := by
    simp only [Completes, fetched, if_pos call]
  have load : ctx.loadPath? =
      if SyscallId.ofField? instruction.rs1 = some .Load then
        (SyscallHandler.readLoadPath ctx.memory (instruction.imm.setWidth 32) 256 0).toOption
      else none := by
    simp [loadPath?, fetched, call]
  unfold CallCompletes at completes
  unfold executeCall SyscallHandler.handle
  dsimp only at completes ⊢
  cases known : SyscallId.ofField? instruction.rs1 with
  | none =>
    simp only [known, reduceCtorEq, if_false] at completes load
    exact .finished (completes ▸ trivial) load (fun error => nomatch error) (fun halt => nomatch halt)
      (fun _ => ⟨rfl, rfl⟩)
  | some id =>
    simp only [known] at completes load
    cases id
    case Print =>
      by_cases access : ctx.memory.DataAccess (instruction.imm.setWidth 32)
      · simp only [ProcessMemory.readDataWord_ok access]
        exact .finished (completes ▸ access) load (fun error => nomatch error) (fun halt => nomatch halt)
          (fun _ => ⟨rfl, rfl⟩)
      · obtain ⟨message, refused⟩ := ProcessMemory.readDataWord_error access
        simp only [refused]
        exact .threw (completes ▸ access) rfl rfl (fun empty => empty)
    case Scan =>
      cases input : ctx.input with
      | nil =>
        rw [input] at completes
        exact .threw (fun done => (completes ▸ done).1 rfl) rfl rfl (fun empty => empty)
      | cons value rest =>
        rw [input] at completes
        by_cases access : ctx.memory.DataAccess (instruction.imm.setWidth 32)
        · have written : ({ ctx with input := rest } : ExecutionContext).memory.writeDataWord
              (instruction.imm.setWidth 32) value = .ok _ := ProcessMemory.writeDataWord_ok value access
          simp only [written]
          exact .finished (completes ▸ ⟨List.cons_ne_nil _ _, access⟩) load (fun error => nomatch error)
            (fun halt => nomatch halt) (fun _ => ⟨rfl, rfl⟩)
        · obtain ⟨message, refused⟩ := ProcessMemory.writeDataWord_error value access
          have failed : ({ ctx with input := rest } : ExecutionContext).memory.writeDataWord
              (instruction.imm.setWidth 32) value = .error (.vmException message) := refused
          simp only [failed]
          exact .threw (fun done => access (completes ▸ done).2) rfl rfl (fun empty => nomatch input.symm.trans empty)
    case Exit =>
      exact .finished (completes ▸ trivial) load (fun error => nomatch error) (fun _ => rfl)
        (fun alive => absurd rfl alive)
    case Yield =>
      exact .finished (completes ▸ trivial) load (fun error => nomatch error) (fun halt => nomatch halt)
        (fun _ => ⟨rfl, rfl⟩)
    case Load =>
      cases read : SyscallHandler.readLoadPath ctx.memory (instruction.imm.setWidth 32) 256 0 with
      | error e =>
        rw [read] at completes
        exact .threw (fun done => nomatch (completes ▸ done : (Except.error e).isOk = true)) rfl rfl
          (fun empty => empty)
      | ok path =>
        rw [read] at completes load
        exact .loading (completes ▸ rfl) load

/-- An instruction that has finished is one of the registry, or a system call
other than a load. -/
theorem beginInstruction_finished {after : ExecutionContext} {result : ExecutionResult}
    (began : beginInstruction ctx = (.ok (.finished result), after)) :
    ∃ instruction, ctx.fetch? = some instruction ∧
      (instruction.opcode ≠ Opcode.CALL.toByte ∧
          (∃ worked, (effect instruction ctx).apply ctx = (.ok result, worked) ∧ after = worked.useTimeSlice) ∨
        instruction.opcode = Opcode.CALL.toByte ∧
          ∃ handled, SyscallHandler.handle (SyscallId.ofField? instruction.rs1) (instruction.imm.setWidth 32) ctx =
            (.ok .done, handled) ∧ finishCall (SyscallId.ofField? instruction.rs1) handled = (result, after)) := by
  cases fetched : ctx.fetch? with
  | none =>
    rw [beginInstruction_of_fetch_none fetched] at began
    cases began
  | some instruction =>
    refine ⟨instruction, rfl, ?_⟩
    rw [beginInstruction_of_fetch fetched] at began
    split at began
    · rename_i call
      refine Or.inr ⟨call, ?_⟩
      unfold executeCall finishHandle at began
      dsimp only at began
      split at began
      · cases began
      · cases began
      · rename_i handled
        cases began
        exact ⟨_, handled, rfl⟩
    · rename_i registered
      refine Or.inl ⟨registered, ?_⟩
      rw [execute_eq] at began
      unfold finishExecute at began
      split at began
      · cases began
      · rename_i worked
        cases began
        exact ⟨_, worked, rfl⟩

/-- Every way an instruction can end: it throws exactly where it is said not to
complete, and an error it returns is recorded in the process. -/
theorem beginInstruction_outcome (ctx : ExecutionContext) : InstructionOutcome ctx (beginInstruction ctx) := by
  cases fetched : ctx.fetch? with
  | none =>
    rw [beginInstruction_of_fetch_none fetched]
    refine .threw ?_ rfl rfl (fun empty => empty)
    simp only [Completes, fetched, not_false_eq_true]
  | some instruction =>
    rw [beginInstruction_of_fetch fetched]
    split
    · rename_i call
      exact executeCall_outcome fetched call
    · rename_i registered
      exact finishExecute_outcome fetched registered

end VirtualMachine
