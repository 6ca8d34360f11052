import VirtualMachine.Cpu.CoreLoop
import VirtualMachine.Os.Execution

namespace VirtualMachine

/-- The effect ends as `ExecutionResult::Error`. -/
def Effect.Errs : Effect → Prop
  | registers _ result => result = .Error
  | fail _ _ => True
  | _ => False

theorem Effect.errs_of_apply {effect : Effect} {ctx after : ExecutionContext} {result : ExecutionResult}
    (applied : effect.apply ctx = (.ok result, after)) : result = .Error ↔ effect.Errs := by
  cases effect with
  | registers registers ended =>
    cases applied
    exact Iff.rfl
  | store address value registers =>
    cases applied
    exact iff_of_false (by decide) (fun impossible => impossible)
  | halt =>
    cases applied
    exact iff_of_false (by decide) (fun impossible => impossible)
  | fail message sp =>
    cases applied
    exact iff_of_true rfl trivial
  | throw e => cases applied

namespace ExecutionContext

/-- The word that is fetched next is one of the process's own code. -/
def InCode (ctx : ExecutionContext) : Prop := ctx.registers.pc.toNat < ctx.process.layout.codeSize / 4

/-- The word below SP belongs to the stack, and to memory. -/
def StackHasRoom (ctx : ExecutionContext) : Prop :=
  ctx.process.layout.stackAddress.toNat + 4 ≤ ctx.registers.sp.toNat ∧
    ctx.registers.sp.toNat ≤ ctx.process.layout.stackAddress.toNat + ctx.process.layout.stackSize ∧
    ctx.registers.sp.toNat ≤ ctx.physical.size

/-- The word at SP belongs to the stack, and to memory. -/
def StackHasWord (ctx : ExecutionContext) : Prop :=
  ctx.process.layout.stackAddress.toNat ≤ ctx.registers.sp.toNat ∧
    ctx.registers.sp.toNat + 4 ≤ ctx.process.layout.stackAddress.toNat + ctx.process.layout.stackSize ∧
    ctx.registers.sp.toNat + 4 ≤ ctx.physical.size

/-- A division by zero, a push onto a full stack, or a `POP` or `RET` from an
empty one. -/
def Refuses (ctx : ExecutionContext) (instruction : DecodedInstruction) : Prop :=
  match Opcode.ofByte? instruction.opcode with
  | some .DIV | some .MOD => readOperand instruction ctx = 0
  | some .PUSH => ¬ ctx.StackHasRoom
  | some .POP | some .RET => ¬ ctx.StackHasWord
  | _ => False

variable {ctx : ExecutionContext} {instruction : DecodedInstruction}

theorem stackHasRoom_iff : ctx.StackHasRoom ↔
    ctx.memory.canPush ctx.registers.sp = true ∧ ctx.registers.sp.toNat ≤ ctx.physical.size := by
  rw [ProcessMemory.canPush_iff, and_assoc]
  exact Iff.rfl

theorem stackHasWord_iff : ctx.StackHasWord ↔
    ctx.memory.canPop ctx.registers.sp = true ∧ ctx.registers.sp.toNat + 4 ≤ ctx.physical.size := by
  rw [ProcessMemory.canPop_iff, and_assoc]
  exact Iff.rfl

theorem pushEffect_errs_iff (value : Word) : (ctx.pushEffect value).Errs ↔ ¬ ctx.StackHasRoom := by
  rw [stackHasRoom_iff, pushEffect]
  by_cases room : ctx.memory.canPush ctx.registers.sp = true
  · by_cases inMemory : ctx.registers.sp.toNat ≤ ctx.physical.size
    · simp only [if_pos room, if_pos inMemory]
      exact iff_of_false (fun impossible => impossible) (fun refused => refused ⟨room, inMemory⟩)
    · simp only [if_pos room, if_neg inMemory]
      exact iff_of_true trivial (fun both => inMemory both.2)
  · simp only [if_neg room]
    exact iff_of_true trivial (fun both => room both.1)

theorem popEffect_errs_iff (use : RegisterFile → Word → RegisterFile) {result : ExecutionResult}
    (fine : result ≠ .Error) : (ctx.popEffect use result).Errs ↔ ¬ ctx.StackHasWord := by
  rw [stackHasWord_iff, popEffect]
  by_cases room : ctx.memory.canPop ctx.registers.sp = true
  · by_cases inMemory : ctx.registers.sp.toNat + 4 ≤ ctx.physical.size
    · simp only [if_pos room, if_pos inMemory]
      exact iff_of_false fine (fun refused => refused ⟨room, inMemory⟩)
    · simp only [if_pos room, if_neg inMemory]
      exact iff_of_true trivial (fun both => inMemory both.2)
  · simp only [if_neg room]
    exact iff_of_true trivial (fun both => room both.1)

/-- The instructions of the registry that end as `ExecutionResult::Error` are
the divisions by zero and the accesses to the stack beyond its bounds. -/
theorem effect_errs_iff : (effect instruction ctx).Errs ↔ ctx.Refuses instruction := by
  have never : (False ↔ False) := Iff.rfl
  have continues : ExecutionResult.Continue = .Error ↔ False := iff_of_false (by decide) (fun impossible => impossible)
  have jumps : ExecutionResult.Jump = .Error ↔ False := iff_of_false (by decide) (fun impossible => impossible)
  unfold effect Refuses
  cases Opcode.ofByte? instruction.opcode with
  | none => exact never
  | some opcode =>
    cases opcode
    case DIV | MOD =>
      dsimp only [operands]
      split
      · rename_i zero
        exact iff_of_true trivial zero
      · rename_i nonzero
        exact iff_of_false (fun impossible => nomatch impossible) nonzero
    case JE | JNE | JG | JGE | JL | JLE =>
      dsimp only
      split
      · exact jumps
      · exact continues
    case LOAD =>
      simp only [loadEffect]
      split
      · exact never
      · exact continues
    case STORE =>
      simp only [storeEffect]
      split <;> exact never
    case PUSH => exact pushEffect_errs_iff _
    case POP => exact popEffect_errs_iff _ (by decide)
    case RET => exact popEffect_errs_iff _ (by decide)
    case CALL | HALT => exact never
    case JMP => exact jumps
    all_goals exact continues

/-- An instruction that has finished ends as an error exactly when it is one of
these: no system call does. -/
theorem error_iff_refuses {result : ExecutionResult} {after : ExecutionContext}
    (began : beginInstruction ctx = (.ok (.finished result), after)) :
    result = .Error ↔ ∃ instruction, ctx.fetch? = some instruction ∧ ctx.Refuses instruction := by
  obtain ⟨instruction, fetched, ⟨-, worked, applied, -⟩ | ⟨call, handled, -, finished⟩⟩ :=
    beginInstruction_finished began
  · rw [Effect.errs_of_apply applied, effect_errs_iff]
    constructor
    · exact fun refuses => ⟨instruction, fetched, refuses⟩
    · rintro ⟨other, same, refuses⟩
      rw [fetched] at same
      cases same
      exact refuses
  · have fine : result ≠ .Error := by
      have ended := congrArg Prod.fst finished
      dsimp only [finishCall] at ended
      rw [← ended]
      split
      · exact fun impossible => nomatch impossible
      · split <;> exact fun impossible => nomatch impossible
    refine iff_of_false fine ?_
    rintro ⟨other, same, refuses⟩
    rw [fetched] at same
    cases same
    rw [Refuses, call, Opcode.ofByte?_toByte] at refuses
    exact refuses

end ExecutionContext

namespace VirtualOS

/-- The ways in which the next instruction of a process can fail: a fetch from
outside its code or outside memory, an unknown opcode, a division by zero, an
access beyond the bounds of its data or of its stack, a scan without input, and
a load whose path cannot be read or whose file cannot be loaded. -/
inductive Failure (files : FileSystem) (os : VirtualOS) (process : ProcessControlBlock) : Prop
  | fetch (outside : ¬ (os.context process).InCode)
  | memory (beyond : (os.context process).fetch? = none)
  | opcode {instruction : DecodedInstruction} (fetched : (os.context process).fetch? = some instruction)
      (unknown : Opcode.ofByte? instruction.opcode = none)
  | division {instruction : DecodedInstruction} (fetched : (os.context process).fetch? = some instruction)
      (divides : Opcode.ofByte? instruction.opcode = some .DIV ∨ Opcode.ofByte? instruction.opcode = some .MOD)
      (zero : readOperand instruction (os.context process) = 0)
  | push {instruction : DecodedInstruction} (fetched : (os.context process).fetch? = some instruction)
      (pushes : Opcode.ofByte? instruction.opcode = some .PUSH) (full : ¬ (os.context process).StackHasRoom)
  | pop {instruction : DecodedInstruction} (fetched : (os.context process).fetch? = some instruction)
      (pops : Opcode.ofByte? instruction.opcode = some .POP ∨ Opcode.ofByte? instruction.opcode = some .RET)
      (empty : ¬ (os.context process).StackHasWord)
  | data {instruction : DecodedInstruction} (fetched : (os.context process).fetch? = some instruction)
      (accesses : Opcode.ofByte? instruction.opcode = some .LOAD ∨ Opcode.ofByte? instruction.opcode = some .STORE)
      (outside : ¬ (os.context process).memory.DataAccess (instruction.imm.signExtend 32))
  | print {instruction : DecodedInstruction} (fetched : (os.context process).fetch? = some instruction)
      (call : instruction.opcode = Opcode.CALL.toByte) (id : SyscallId.ofField? instruction.rs1 = some .Print)
      (outside : ¬ (os.context process).memory.DataAccess (instruction.imm.setWidth 32))
  | scan {instruction : DecodedInstruction} (fetched : (os.context process).fetch? = some instruction)
      (call : instruction.opcode = Opcode.CALL.toByte) (id : SyscallId.ofField? instruction.rs1 = some .Scan)
      (refused : os.input = [] ∨ ¬ (os.context process).memory.DataAccess (instruction.imm.setWidth 32))
  | load {instruction : DecodedInstruction} (fetched : (os.context process).fetch? = some instruction)
      (call : instruction.opcode = Opcode.CALL.toByte) (id : SyscallId.ofField? instruction.rs1 = some .Load)
      (refused : ∀ path, SyscallHandler.readLoadPath (os.context process).memory (instruction.imm.setWidth 32) 256 0 =
        .ok path → ¬ LoadSucceeds files os path)

/-- The next instruction of a process throws nothing, in its load callback either. -/
def Quiet (files : FileSystem) (os : VirtualOS) (process : ProcessControlBlock) : Prop :=
  (os.context process).Completes ∧
    ∀ path, (os.context process).loadPath? = some path → LoadSucceeds files os path

variable {os : VirtualOS} {p : ProcessRef} {process : ProcessControlBlock}

/-- `executeInstruction` throws exactly where the instruction is not quiet. -/
theorem executeInstruction_ok_iff (files : FileSystem) (p : ProcessRef) (process : ProcessControlBlock)
    (size : os.physicalMemory.size = kDefaultPhysicalMemorySize) :
    (∃ result, (os.executeInstruction files p process).1 = .ok result) ↔ Quiet files os process := by
  have outcome := beginInstruction_outcome (os.context process)
  have execution := os.executeInstruction_execution files p process
  revert execution
  generalize os.executeInstruction files p process = executed
  intro execution
  cases execution with
  | threw began fails => exact iff_of_false (fun ⟨_, impossible⟩ => nomatch impossible) (fun quiet => fails quiet.1)
  | finished began =>
    rw [began] at outcome
    cases outcome with
    | finished completes noLoad failed halted alive =>
      refine iff_of_true ⟨_, rfl⟩ ⟨completes, fun path load => ?_⟩
      rw [noLoad] at load
      cases load
  | @loadFailed path e physical load left failed =>
    refine iff_of_false (fun ⟨_, impossible⟩ => nomatch impossible) (fun quiet => ?_)
    obtain ⟨child, loaded⟩ := (emplaceFile_ok_iff files (os.update p (os.context process)) size path).mpr
      (quiet.2 path load)
    rw [failed] at loaded
    cases loaded
  | @loaded path source program layout physical completes load opened accepted ran =>
    refine iff_of_true ⟨_, rfl⟩ ⟨completes, fun other same => ?_⟩
    rw [load] at same
    cases same
    rcases ProgramLoader.load_cases size program with ⟨loads, _⟩ | ⟨_, e, after, failed, _⟩
    · exact ⟨source, program, opened, accepted, loads⟩
    · rw [ran] at failed
      cases failed

/-- Of the failures of an instruction of the process's own code, the ones that
throw nothing are divisions by zero and accesses beyond the bounds of the stack. -/
theorem Failure.refuses (failure : Failure files os process) (quiet : Quiet files os process)
    (inCode : (os.context process).InCode) :
    ∃ instruction, (os.context process).fetch? = some instruction ∧ (os.context process).Refuses instruction := by
  obtain ⟨completes, loads⟩ := quiet
  cases failure with
  | fetch outside => exact absurd inCode outside
  | memory beyond =>
    rw [ExecutionContext.Completes, beyond] at completes
    exact completes.elim
  | @opcode instruction fetched unknown =>
    have completed := completes.handler fetched (by rw [unknown]; decide)
    rw [ExecutionContext.HandlerCompletes, unknown] at completed
    exact completed.elim
  | @division instruction fetched divides zero =>
    refine ⟨instruction, fetched, ?_⟩
    rcases divides with known | known <;> (rw [ExecutionContext.Refuses, known]; exact zero)
  | @push instruction fetched pushes full =>
    refine ⟨instruction, fetched, ?_⟩
    rw [ExecutionContext.Refuses, pushes]
    exact full
  | @pop instruction fetched pops empty =>
    refine ⟨instruction, fetched, ?_⟩
    rcases pops with known | known <;> (rw [ExecutionContext.Refuses, known]; exact empty)
  | @data instruction fetched accesses outside =>
    have other : Opcode.ofByte? instruction.opcode ≠ some .CALL := by
      rcases accesses with known | known <;> (rw [known]; decide)
    have completed := completes.handler fetched other
    refine absurd ?_ outside
    rcases accesses with known | known <;> (rw [ExecutionContext.HandlerCompletes, known] at completed; exact completed)
  | @print instruction fetched call id outside =>
    have completed := completes.call fetched call
    rw [ExecutionContext.CallCompletes, id] at completed
    exact absurd completed outside
  | @scan instruction fetched call id refused =>
    have completed := completes.call fetched call
    rw [ExecutionContext.CallCompletes, id] at completed
    rcases refused with noInput | outside
    · exact absurd noInput completed.1
    · exact absurd completed.2 outside
  | @load instruction fetched call id refused =>
    have completed := completes.call fetched call
    rw [ExecutionContext.CallCompletes, id] at completed
    dsimp only at completed
    cases read : SyscallHandler.readLoadPath (os.context process).memory (instruction.imm.setWidth 32) 256 0 with
    | error e =>
      rw [read] at completed
      cases completed
    | ok path => exact absurd (loads path (ExecutionContext.loadPath?_of_read fetched call id read)) (refused path read)

/-- Where an instruction throws nothing, it ends as an error exactly when it
divides by zero or leaves the bounds of the stack. -/
theorem executeInstruction_error_iff (files : FileSystem) (p : ProcessRef) (process : ProcessControlBlock)
    (size : os.physicalMemory.size = kDefaultPhysicalMemorySize) (quiet : Quiet files os process) :
    (os.executeInstruction files p process).1 = .ok .Error ↔
      ∃ instruction, (os.context process).fetch? = some instruction ∧ (os.context process).Refuses instruction := by
  obtain ⟨ended, returned⟩ := (executeInstruction_ok_iff files p process size).mpr quiet
  have execution := os.executeInstruction_execution files p process
  revert execution returned
  generalize os.executeInstruction files p process = executed
  intro returned execution
  cases execution with
  | threw began fails => cases returned
  | finished began =>
    rw [Except.ok.injEq]
    exact ExecutionContext.error_iff_refuses began
  | loadFailed load left failed => cases returned
  | loaded completes load opened accepted ran =>
    refine iff_of_false (by simp) ?_
    rintro ⟨instruction, fetched, refuses⟩
    rw [ExecutionContext.loadPath?, fetched, Option.bind_some] at load
    obtain ⟨⟨call, -⟩, -⟩ := Option.ite_none_right_eq_some.mp load
    rw [ExecutionContext.Refuses, call, Opcode.ofByte?_toByte] at refuses
    exact refuses

end VirtualOS

namespace CoreLoop

variable {os : VirtualOS} {p : ProcessRef} {process : ProcessControlBlock}

theorem finishRelease_ok (released : CoreState × VirtualOS) : (finishRelease released).1 = .ok none := by
  unfold finishRelease
  split <;> rfl

theorem finishRelease_process? (released : CoreState × VirtualOS) (q : ProcessRef) :
    (finishRelease released).2.process? q = released.2.process? q := by
  unfold finishRelease
  split <;> rfl

theorem finishRelease_others {released : CoreState × VirtualOS} (others : OthersKept p os released.2) :
    OthersKept p os (finishRelease released).2 := by
  unfold finishRelease
  split
  · exact others.congr rfl
  · exact others

theorem release_others (found : os.process? p = some process) (preempt : Bool) :
    OthersKept p os (release os p process preempt).2 := by
  have given : OthersKept p os (os.setState p .Ready) := .of_modifyProcess os p (fun _ => rfl)
  by_cases halted : process.state = .Halted
  · rw [release_halted preempt halted]
    exact (OthersKept.refl p os).congr rfl
  · cases preempt with
    | false =>
      rw [release_giveBack halted]
      exact given
    | true =>
      cases state : process.state with
      | Running =>
        rw [release_preempt found state]
        exact given.congr rfl
      | Ready =>
        rw [release_ready found state]
        exact .refl p os
      | Halted => exact absurd state halted

theorem dispose_others (os : VirtualOS) (p : ProcessRef) (process : ProcessControlBlock) (result : ExecutionResult) :
    OthersKept p os (dispose os p process result).2 := by
  unfold dispose
  repeat' split
  · exact .of_modifyProcess os p (fun _ => rfl)
  · exact .of_modifyProcess os p (fun _ => rfl)
  · exact .of_modifyProcess os p (fun _ => rfl)
  · exact .refl p os
  · exact .refl p os

theorem dispose_held (os : VirtualOS) (p : ProcessRef) (process : ProcessControlBlock) (result : ExecutionResult) :
    (dispose os p process result).1.held = some p := by
  unfold dispose
  repeat' split
  all_goals rfl

theorem finishRound_others {disposed : CoreState × VirtualOS} (held : disposed.1.held = some p)
    (others : OthersKept p os disposed.2) : OthersKept p os (finishRound disposed).2 := by
  unfold finishRound
  split
  · cases held
    split
    · exact others
    · rename_i found
      exact finishRelease_others (others.trans (release_others found _))
  · exact others

theorem finishRound_ok (disposed : CoreState × VirtualOS) : ∃ kept, (finishRound disposed).1 = .ok kept := by
  unfold finishRound
  split
  · split
    · exact ⟨_, rfl⟩
    · exact ⟨_, finishRelease_ok _⟩
  · exact ⟨_, rfl⟩

/-- An instruction that has returned an error leaves its process halted. -/
theorem finishRound_error (found : os.process? p = some process) :
    ∃ after, (finishRound (dispose os p process .Error)).2.process? p = some after ∧ after.state = .Halted ∧
      after.lastError = process.lastError := by
  have halts : ∃ after halted, dispose os p process .Error = (.releasing p false, after) ∧
      after.process? p = some halted ∧ halted.state = .Halted ∧ halted.lastError = process.lastError := by
    unfold dispose
    split
    · exact ⟨_, process.setState .Halted, rfl, by rw [VirtualOS.process?_setState_same, found]; rfl, rfl, rfl⟩
    · exact ⟨_, (process.setState .Halted).setHalted true, rfl,
        by rw [VirtualOS.process?_modifyProcess_same, found]; rfl, rfl, rfl⟩
  obtain ⟨after, halted, disposed, current, state, message⟩ := halts
  refine ⟨halted, ?_, state, message⟩
  rw [disposed, finishRound]
  rw [current]
  dsimp only
  rw [release_halted false state, finishRelease_process?]
  exact current

/-- One round of the core loop with a process contains every fault of it: no
exception escapes, each failure of its instruction is returned as an error, an
error ends in a halted process with its message, and the other processes stay as
they are. -/
structure Contained (files : FileSystem) (os : VirtualOS) (p : ProcessRef) (process : ProcessControlBlock) : Prop where
  noEscape : ∃ kept, (iteration files os p process).1 = .ok kept
  failure : process.context.halted = false → process.state ≠ .Halted → VirtualOS.Failure files os process →
    (os.executeInstruction files p process).1 = .ok .Error
  error : process.context.halted = false → process.state ≠ .Halted →
    (os.executeInstruction files p process).1 = .ok .Error →
      ∃ after, (iteration files os p process).2.process? p = some after ∧ after.state = .Halted ∧
        after.lastError.isSome = true
  others : ∀ q, q ≠ p → q < os.processTable.processes.length →
    (iteration files os p process).2.process? q = os.process? q

/-- The next instruction lies in the process's own code, or it happens to be one
that divides by zero or leaves the bounds of the stack. -/
def Caught (ctx : ExecutionContext) : Prop :=
  ctx.InCode ∨ ∃ instruction, ctx.fetch? = some instruction ∧ ctx.Refuses instruction

theorem finishInstruction_others {executed : Except Exception ExecutionResult × VirtualOS}
    (others : OthersKept p os executed.2) : OthersKept p os (finishInstruction p executed).2 := by
  rcases executed with ⟨e | result, after⟩
  · exact others
  · unfold finishInstruction
    dsimp only at others ⊢
    split
    · exact others
    · rename_i current _
      exact finishRound_others (dispose_held after p current result)
        (others.trans (dispose_others after p current result))

theorem iteration_others (files : FileSystem) (found : os.process? p = some process) :
    OthersKept p os (iteration files os p process).2 := by
  unfold iteration
  split
  · exact finishRelease_others (release_others found false)
  · exact finishInstruction_others ((os.executeInstruction_execution files p process).others found)

/-- A round contains its faults exactly when it executes nothing, or an
instruction that throws nothing and that is not fetched from outside the code.
`PUSH`, `POP` and `RET` turn their exceptions into errors, as `DIV` and `MOD`
return theirs; the fetch, `LOAD`, `STORE`, unknown opcodes and the system calls
let theirs out of the thread, and a word from outside the code that is still in
memory is executed like any other. -/
theorem contained_iff (files : FileSystem) (os : VirtualOS) (p : ProcessRef) (process : ProcessControlBlock)
    (size : os.physicalMemory.size = kDefaultPhysicalMemorySize) (found : os.process? p = some process) :
    Contained files os p process ↔
      process.context.halted = true ∨ process.state = .Halted ∨
        VirtualOS.Quiet files os process ∧ Caught (os.context process) := by
  have others := (iteration_others files found).kept
  have returns := VirtualOS.executeInstruction_ok_iff files p process size
  obtain ⟨current, own, recorded, -⟩ := (os.executeInstruction_execution files p process).own found
  rw [← or_assoc]
  by_cases halted : process.context.halted = true ∨ process.state = .Halted
  · have idle : process.context.halted = false → process.state ≠ .Halted → False := by
      intro alive running
      rcases halted with flag | state
      · rw [alive] at flag
        cases flag
      · exact running state
    refine iff_of_true ⟨?_, fun alive running => (idle alive running).elim, fun alive running =>
      (idle alive running).elim,
      others⟩ (Or.inl halted)
    rw [iteration, if_pos halted]
    exact ⟨none, finishRelease_ok _⟩
  · rw [or_iff_right halted]
    obtain ⟨alive, running⟩ := not_or.mp halted
    have round : iteration files os p process = finishInstruction p (os.executeInstruction files p process) := by
      rw [iteration, if_neg halted]
    constructor
    · intro contained
      have quiet : VirtualOS.Quiet files os process := by
        rw [← returns]
        obtain ⟨kept, fine⟩ := contained.noEscape
        rw [round] at fine
        revert fine
        rcases os.executeInstruction files p process with ⟨e | result, after⟩
        · exact fun impossible => nomatch impossible
        · exact fun _ => ⟨result, rfl⟩
      refine ⟨quiet, or_iff_not_imp_left.mpr fun outside => ?_⟩
      have error := contained.failure (eq_false_of_ne_true alive) running (.fetch outside)
      exact (VirtualOS.executeInstruction_error_iff files p process size quiet).mp error
    · rintro ⟨quiet, caught⟩
      obtain ⟨result, ran⟩ := returns.mpr quiet
      have disposed : iteration files os p process =
          finishRound (dispose (os.executeInstruction files p process).2 p current result) := by
        revert ran own round
        rcases os.executeInstruction files p process with ⟨outcome, after⟩
        rintro own round rfl
        rw [round, finishInstruction]
        dsimp only at own ⊢
        rw [own]
      refine ⟨?_, fun _ _ failure => ?_, fun _ _ error => ?_, others⟩
      · rw [disposed]
        exact finishRound_ok _
      · rw [VirtualOS.executeInstruction_error_iff files p process size quiet]
        rcases caught with inCode | refuses
        · exact failure.refuses quiet inCode
        · exact refuses
      · rw [ran] at error
        cases error
        obtain ⟨ended, here, state, message⟩ := finishRound_error own
        rw [disposed]
        exact ⟨ended, here, state, by rw [message]; exact recorded ran⟩

/-- A `load` from beyond the data segment. -/
def wildLoad : VirtualOS := ((VirtualOS.create 100 []).loadProgramFromSource "CODE:\nload r0, 100\nhalt\n".toList).2

def noFiles : FileSystem := fun _ => none

theorem contained_iff_wildLoad :
    ∃ process, wildLoad.process? 0 = some process ∧
      (Contained noFiles wildLoad 0 process ↔
        process.context.halted = true ∨ process.state = .Halted ∨
          VirtualOS.Quiet noFiles wildLoad process ∧ Caught (wildLoad.context process)) := by
  have size : wildLoad.physicalMemory.size = kDefaultPhysicalMemorySize := by decide +kernel
  obtain ⟨process, found⟩ := wildLoad.exists_process? (p := 0) (by decide +kernel)
  exact ⟨process, found, contained_iff noFiles wildLoad 0 process size found⟩

/-- The exception leaves the core loop. -/
theorem contained_fails_for_wildLoad :
    ¬ ∀ (files : FileSystem) (os : VirtualOS) (p : ProcessRef) (process : ProcessControlBlock),
      os.physicalMemory.size = kDefaultPhysicalMemorySize → os.process? p = some process →
        Contained files os p process := by
  intro contained
  have size : wildLoad.physicalMemory.size = kDefaultPhysicalMemorySize := by decide +kernel
  have escapes : (wildLoad.process? 0).map (fun process => (iteration noFiles wildLoad 0 process).1.isOk) =
      some false := by decide +kernel
  obtain ⟨process, found⟩ := wildLoad.exists_process? (p := 0) (by decide +kernel)
  obtain ⟨kept, fine⟩ := (contained noFiles wildLoad 0 process size found).noEscape
  rw [found, Option.map_some, fine] at escapes
  cases escapes

end CoreLoop

end VirtualMachine
