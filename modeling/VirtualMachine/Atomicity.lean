import VirtualMachine.Assembler.Passes
import VirtualMachine.Os.SpilledImage
import VirtualMachine.WriteConfinement

namespace VirtualMachine

open ProgramLoader TransitionSystem

namespace ExecutionContext

/-- A push that its stack has room for, past the end of physical memory. -/
def PushesPastMemory (ctx : ExecutionContext) (raw : Word) : Prop :=
  Opcode.ofByte? (decodeInstruction raw).opcode = some .PUSH ∧ ctx.memory.canPush ctx.registers.sp = true ∧
    ctx.physical.size < ctx.registers.sp.toNat

/-- A load system call that has read its path. -/
def CallsLoad (ctx : ExecutionContext) (raw : Word) (path : List Byte) : Prop :=
  (decodeInstruction raw).opcode = Opcode.CALL.toByte ∧ SyscallId.ofField? (decodeInstruction raw).rs1 = some .Load ∧
    SyscallHandler.readLoadPath ctx.memory ((decodeInstruction raw).imm.setWidth 32) 256 0 = .ok path

/-- The registers and the memory are those of before. -/
structure SameState (before after : ExecutionContext) : Prop where
  registers : after.registers = before.registers
  physical : after.physical = before.physical

end ExecutionContext

/-- How the execution of a word ends: with success, with a failure that has
changed nothing, in a push past the end of memory, or in the load callback. -/
inductive WordOutcome (raw : Word) (ctx : ExecutionContext) : Except Exception Progress × ExecutionContext → Prop
  | succeeds {result after} (success : result ≠ .Error) : WordOutcome raw ctx (.ok (.finished result), after)
  | fails {after} (same : ctx.SameState after) : WordOutcome raw ctx (.ok (.finished .Error), after)
  | throws {e after} (same : ctx.SameState after) : WordOutcome raw ctx (.error e, after)
  | pushes {after} (past : ctx.PushesPastMemory raw) : WordOutcome raw ctx (.ok (.finished .Error), after)
  | loads {path} (call : ctx.CallsLoad raw path) : WordOutcome raw ctx (.ok (.loading path), ctx)

variable {raw : Word} {ctx : ExecutionContext}

/-- A failing instruction of the registry moves SP only if it is such a push. -/
theorem fail_sp {instruction : DecodedInstruction} {message : String} {sp : Address}
    (failed : effect instruction ctx = .fail message sp) :
    sp = ctx.registers.sp ∨ Opcode.ofByte? instruction.opcode = some .PUSH ∧
      ctx.memory.canPush ctx.registers.sp = true ∧ ctx.physical.size < ctx.registers.sp.toNat := by
  by_cases push : Opcode.ofByte? instruction.opcode = some .PUSH
  · have table : effect instruction ctx = ctx.pushEffect (readOperand instruction ctx) := by
      rw [effect, push]
      rfl
    rw [table, ExecutionContext.pushEffect] at failed
    by_cases room : ctx.memory.canPush ctx.registers.sp = true
    · rw [if_pos room] at failed
      by_cases inMemory : ctx.registers.sp.toNat ≤ ctx.physical.size
      · rw [if_pos inMemory] at failed
        cases failed
      · exact .inr ⟨push, room, Nat.lt_of_not_le inMemory⟩
    · rw [if_neg room] at failed
      cases failed
      exact .inl rfl
  · have pop : ∀ use result, ctx.popEffect use result = .fail message sp → sp = ctx.registers.sp := by
      intro use result failed
      unfold ExecutionContext.popEffect at failed
      dsimp only at failed
      split at failed
      · split at failed
        · cases failed
        · cases failed
          rfl
      · cases failed
        rfl
    refine .inl ?_
    unfold effect at failed
    cases known : Opcode.ofByte? instruction.opcode with
    | none =>
      rw [known] at failed
      cases failed
    | some opcode =>
      rw [known] at failed
      cases opcode
      case PUSH => exact absurd known push
      case POP => exact pop _ _ failed
      case RET => exact pop _ _ failed
      case DIV | MOD =>
        dsimp only at failed
        split at failed
        · cases failed
          rfl
        · cases failed
      case JE | JNE | JG | JGE | JL | JLE =>
        dsimp only at failed
        split at failed <;> cases failed
      case LOAD =>
        dsimp only [ExecutionContext.loadEffect] at failed
        split at failed <;> cases failed
      case STORE =>
        dsimp only [ExecutionContext.storeEffect] at failed
        split at failed <;> cases failed
      all_goals cases failed

theorem registryWord_outcome (raw : Word) (ctx : ExecutionContext) :
    WordOutcome raw ctx (finishExecute (InstructionRegistry.execute (decodeInstruction raw) ctx)) := by
  have agrees := effect_agrees (decodeInstruction raw) ctx
  rw [execute_eq]
  cases effects : effect (decodeInstruction raw) ctx with
  | registers after result =>
    rw [effects] at agrees
    exact .succeeds agrees.2.1
  | store address value after => exact .succeeds (by decide)
  | halt => exact .succeeds (by decide)
  | fail message sp =>
    rcases fail_sp effects with rfl | past
    · exact .fails ⟨rfl, rfl⟩
    · exact .pushes past
  | throw e => exact .throws ⟨rfl, rfl⟩

theorem callWord_outcome (call : (decodeInstruction raw).opcode = Opcode.CALL.toByte) :
    WordOutcome raw ctx (executeCall (decodeInstruction raw) ctx) := by
  have done : ∀ id handled, WordOutcome raw ctx (.ok (.finished (finishCall id handled).1),
    (finishCall id handled).2) := by
    intro id handled
    refine .succeeds ?_
    unfold finishCall
    dsimp only
    split
    · exact fun error => nomatch error
    · split <;> exact fun error => nomatch error
  unfold executeCall SyscallHandler.handle
  dsimp only
  cases known : SyscallId.ofField? (decodeInstruction raw).rs1 with
  | none => exact done none ctx
  | some id =>
    cases id with
    | Print =>
      dsimp only
      cases ctx.memory.readDataWord ((decodeInstruction raw).imm.setWidth 32) with
      | error e => exact .throws ⟨rfl, rfl⟩
      | ok value => exact done _ _
    | Scan =>
      dsimp only
      cases ctx.input with
      | nil => exact .throws ⟨rfl, rfl⟩
      | cons value rest =>
        dsimp only
        generalize ProcessMemory.writeDataWord _ ((decodeInstruction raw).imm.setWidth 32) value = written
        cases written with
        | error e => exact .throws ⟨rfl, rfl⟩
        | ok physical => exact done _ _
    | Exit => exact done _ _
    | Yield => exact done _ _
    | Load =>
      dsimp only
      cases path : SyscallHandler.readLoadPath ctx.memory ((decodeInstruction raw).imm.setWidth 32) 256 0 with
      | error e => exact .throws ⟨rfl, rfl⟩
      | ok path' => exact .loads ⟨call, known, path⟩

theorem executeWord_outcome (raw : Word) (ctx : ExecutionContext) : WordOutcome raw ctx (executeWord raw ctx) := by
  unfold executeWord
  dsimp only
  by_cases call : (decodeInstruction raw).opcode = Opcode.CALL.toByte
  · rw [if_pos call]
    exact callWord_outcome call
  · rw [if_neg call]
    exact registryWord_outcome raw ctx

namespace VirtualOS

/-- `executeInstruction` once it has fetched its word, with the load callback
run to its end. -/
def runWord (files : FileSystem) (os : VirtualOS) (p : ProcessRef) (process : ProcessControlBlock) (raw : Word) :
    Except Exception ExecutionResult × VirtualOS :=
  match os.executeWord p process raw with
  | (.error e, os) => (.error e, os)
  | (.ok (.finished result), os) => (.ok result, os)
  | (.ok (.loading path), os) =>
    match finishEmplace (os.emplaceFile files path) with
    | (.error e, os) => (.error e, os)
    | (.ok _, os) => (.ok .Continue, os.finishLoad p)

/-- A fetch that is refused changes nothing. -/
theorem executeInstruction_of_refused {os : VirtualOS} {process : ProcessControlBlock} {e : Exception}
    (refused : (os.context process).memory.readCodeWord (os.context process).registers.pc = .error e)
    (files : FileSystem) (p : ProcessRef) :
    os.executeInstruction files p process = (.error e, os.update p (os.context process)) := by
  have began : VirtualMachine.beginInstruction (os.context process) = (.error e, os.context process) := by
    rw [VirtualMachine.beginInstruction, refused]
  rw [executeInstruction, beginInstruction, began]

/-- What `executeInstruction` does is what the fetched word does. The statements
below are about `runWord` on any word, and this carries them to the machine. -/
theorem executeInstruction_of_fetched {os : VirtualOS} {process : ProcessControlBlock} {raw : Word}
    (fetched : (os.context process).memory.readCodeWord (os.context process).registers.pc = .ok raw)
    (files : FileSystem) (p : ProcessRef) : os.executeInstruction files p process = os.runWord files p process raw := by
  rw [executeInstruction, beginInstruction, beginInstruction_of_readCodeWord fetched]
  rfl

/-- The execution returns `Error` or throws. -/
def Fails : Except Exception ExecutionResult → Prop
  | .ok result => result = .Error
  | .error _ => True

/-- Process `p` still has its registers, and its segments their bytes. -/
structure Untouched (p : ProcessRef) (process : ProcessControlBlock) (before after : VirtualOS) : Prop where
  registers : (after.process? p).map (fun process => process.context.registers) = some process.context.registers
  memory : ∀ segment ∈ process.layout.segments, ∀ k, segment.Contains k →
    after.physicalMemory.memory k = before.physicalMemory.memory k

/-- A load system call throws after it has put another byte into a segment of
its caller. -/
def LoadSpills (files : FileSystem) (os : VirtualOS) (process : ProcessControlBlock) (raw : Word) : Prop :=
  ∃ path source program, (os.context process).CallsLoad raw path ∧ files path = some source ∧
    assemble source = .ok program ∧ Spills os.physicalMemory program ∧
    ∃ segment ∈ process.layout.segments, ∃ k byte, segment.Contains k ∧
      spilledByte? os.physicalMemory program k = some byte ∧ byte ≠ os.physicalMemory.memory k

variable {files : FileSystem} {os : VirtualOS} {p : ProcessRef} {process : ProcessControlBlock}

theorem untouched_update (found : os.process? p = some process) {ctx : ExecutionContext}
    (same : (os.context process).SameState ctx) : Untouched p process os (os.update p ctx) where
  registers := by
    rw [os.process?_update_same ctx found]
    exact congrArg some same.registers
  memory := by
    intro _ _ k _
    exact congrArg (fun physical => physical.memory k) same.physical

/-- Such a push leaves SP below where it was. -/
theorem touched_of_pushesPastMemory (found : os.process? p = some process)
    (past : (os.context process).PushesPastMemory raw) :
    Fails (os.runWord files p process raw).1 ∧ ¬ Untouched p process os (os.runWord files p process raw).2 := by
  obtain ⟨push, room, beyond⟩ := past
  have low := (ProcessMemory.canPush_iff.mp room).1
  have notCall : (decodeInstruction raw).opcode ≠ Opcode.CALL.toByte := by
    intro call
    rw [call, Opcode.ofByte?_toByte] at push
    cases push
  have effects : effect (decodeInstruction raw) (os.context process) =
      .fail ("memory access out of bounds at address " ++ toString ((os.context process).registers.sp - 4).toNat)
        ((os.context process).registers.sp - 4) := by
    rw [effect, push]
    dsimp only
    rw [ExecutionContext.pushEffect, if_pos room, if_neg (Nat.not_le.mpr beyond)]
  have executed : VirtualMachine.executeWord raw (os.context process) =
      finishExecute ((effect (decodeInstruction raw) (os.context process)).apply (os.context process)) := by
    rw [VirtualMachine.executeWord, ← execute_eq]
    exact if_neg notCall
  have ran : os.runWord files p process raw =
    (.ok .Error, os.update p (VirtualMachine.executeWord raw (os.context process)).2) := by
    unfold runWord executeWord
    rw [executed, effects]
    rfl
  rw [ran, executed, effects]
  refine ⟨rfl, fun untouched => ?_⟩
  have registers := untouched.registers
  rw [os.process?_update_same _ found] at registers
  have moved : (os.context process).registers.sp - 4 = (os.context process).registers.sp :=
    congrArg RegisterFile.sp (Option.some.inj registers)
  have lower : ((os.context process).registers.sp - 4).toNat = (os.context process).registers.sp.toNat - 4 :=
    ProcessMemory.toNat_sub_four (by omega)
  rw [moved] at lower
  omega

theorem executeWord_of_callsLoad {path : List Byte} (call : (os.context process).CallsLoad raw path) :
    os.executeWord p process raw = (.ok (.loading path), os.update p (os.context process)) := by
  obtain ⟨isCall, isLoad, read⟩ := call
  have executed : VirtualMachine.executeWord raw (os.context process) = (.ok (.loading path), os.context process) := by
    unfold VirtualMachine.executeWord
    dsimp only
    rw [if_pos isCall, executeCall, isLoad, SyscallHandler.handle, read]
    rfl
  rw [executeWord, executed]

/-- A load callback that throws. -/
theorem runWord_of_failedFile {path : List Byte} {e : Exception} {left : VirtualOS}
    (call : (os.context process).CallsLoad raw path)
    (failed : (os.update p (os.context process)).emplaceFile files path = (.error e, left)) :
    os.runWord files p process raw = (.error e, left) := by
  rw [runWord, executeWord_of_callsLoad call]
  dsimp only
  rw [failed]
  rfl

theorem emplaceFile_of_failedLoad {path : List Byte} {source : Text} {program : AssembledProgram} {e : Exception}
    {physical : PhysicalMemory} (opened : files path = some source) (accepted : assemble source = .ok program)
    (failed : load os.physicalMemory program = (.error e, physical)) :
    os.emplaceFile files path = (.error e, { os with physicalMemory := physical }) := by
  rw [emplaceFile, openProgram, opened]
  dsimp only
  rw [emplaceProgram, accepted]
  change os.emplaceLoaded (load os.physicalMemory program) = _
  rw [failed]
  rfl

theorem touched_of_loadSpills (bounded : os.physicalMemory.size < 2 ^ 32) (spilled : LoadSpills files os process raw) :
    Fails (os.runWord files p process raw).1 ∧ ¬ Untouched p process os (os.runWord files p process raw).2 := by
  obtain ⟨path, source, program, call, opened, accepted, spills, segment, member, k, byte, inside, put, differs⟩ :=
    spilled
  obtain ⟨e, physical, failed, memory⟩ := load_memory_of_spills spills bounded
  have callback : (os.update p (os.context process)).emplaceFile files path =
      (.error e, { os.update p (os.context process) with physicalMemory := physical }) :=
    emplaceFile_of_failedLoad opened accepted failed
  rw [runWord_of_failedFile call callback]
  refine ⟨trivial, fun untouched => ?_⟩
  have kept : physical.memory k = os.physicalMemory.memory k := untouched.memory segment member k inside
  rw [memory k, put, Option.getD_some] at kept
  exact differs kept

/-- A load callback that throws and puts nothing into the segments of its caller. -/
theorem untouched_of_callsLoad {path : List Byte} (found : os.process? p = some process)
    (bounded : os.physicalMemory.size + kStackSize < 2 ^ 32) (call : (os.context process).CallsLoad raw path)
    (notSpilled : ¬ LoadSpills files os process raw) (fails : Fails (os.runWord files p process raw).1) :
    Untouched p process os (os.runWord files p process raw).2 := by
  have current := untouched_update found ⟨rfl, rfl⟩
  cases opened : files path with
  | none =>
    have failed : ∃ e, (os.update p (os.context process)).emplaceFile files path =
      (.error e, os.update p (os.context process)) := by
      rw [emplaceFile, openProgram, opened]
      exact ⟨_, rfl⟩
    obtain ⟨e, failed⟩ := failed
    rw [runWord_of_failedFile call failed]
    exact current
  | some source =>
  cases accepted : assemble source with
  | error e =>
    have failed : (os.update p (os.context process)).emplaceFile files path =
      (.error e, os.update p (os.context process)) := by
      rw [emplaceFile, openProgram, opened]
      dsimp only
      rw [emplaceProgram, accepted]
      rfl
    rw [runWord_of_failedFile call failed]
    exact current
  | ok program =>
  by_cases loads : Loads os.physicalMemory program
  · obtain ⟨physical, loaded, _⟩ := load_of_loads loads bounded
    have emplaced : (os.update p (os.context process)).emplaceFile files path =
        (.ok (os.update p (os.context process)).processTable.processes.length,
          (os.update p (os.context process)).emplaced physical
            (layoutFor os.physicalMemory.nextFreeAddress program)) := by
      rw [emplaceFile, openProgram, opened]
      dsimp only
      rw [emplaceProgram, accepted]
      change (os.update p (os.context process)).emplaceLoaded (load os.physicalMemory program) = _
      rw [loaded]
      rfl
    unfold runWord at fails
    rw [executeWord_of_callsLoad call] at fails
    dsimp only at fails
    rw [emplaced] at fails
    cases fails
  have threw : ∀ e physical, load os.physicalMemory program = (.error e, physical) →
      (∀ segment ∈ process.layout.segments, ∀ k, segment.Contains k → physical.memory k = os.physicalMemory.memory k) →
      Untouched p process os (os.runWord files p process raw).2 := by
    intro e physical failed kept
    have callback : (os.update p (os.context process)).emplaceFile files path =
        (.error e, { os.update p (os.context process) with physicalMemory := physical }) :=
      emplaceFile_of_failedLoad opened accepted failed
    rw [runWord_of_failedFile call callback]
    exact ⟨current.registers, kept⟩
  by_cases spills : Spills os.physicalMemory program
  · obtain ⟨e, physical, failed, memory⟩ := load_memory_of_spills spills (by omega)
    refine threw e physical failed (fun segment member k inside => ?_)
    rw [memory k]
    cases put : spilledByte? os.physicalMemory program k with
    | none => rfl
    | some byte =>
      by_contra differs
      exact notSpilled ⟨path, source, program, call, opened, accepted, spills, segment, member, k, byte, inside, put,
        differs⟩
  · obtain ⟨e, physical, failed, memory⟩ := load_memory_of_not_spills loads spills
    exact threw e physical failed (fun _ _ k _ => congrFun memory k)

/-- Failing instructions are atomic, but for these two kinds. -/
theorem untouched_iff (found : os.process? p = some process) (bounded : os.physicalMemory.size + kStackSize < 2 ^ 32) :
    (Fails (os.runWord files p process raw).1 → Untouched p process os (os.runWord files p process raw).2) ↔
      ¬ (os.context process).PushesPastMemory raw ∧ ¬ LoadSpills files os process raw := by
  constructor
  · intro atomic
    refine ⟨fun past => ?_, fun spilled => ?_⟩
    · obtain ⟨fails, touched⟩ : Fails (os.runWord files p process raw).1 ∧ _ := touched_of_pushesPastMemory found past
      exact touched (atomic fails)
    · obtain ⟨fails, touched⟩ := touched_of_loadSpills (p := p) (by omega) spilled
      exact touched (atomic fails)
  · rintro ⟨notPast, notSpilled⟩ fails
    by_cases call : ∃ path, (os.context process).CallsLoad raw path
    · obtain ⟨path, call⟩ := call
      exact untouched_of_callsLoad found bounded call notSpilled fails
    have outcome := executeWord_outcome raw (os.context process)
    unfold runWord executeWord at fails ⊢
    revert outcome fails
    rcases VirtualMachine.executeWord raw (os.context process) with ⟨progress, ctx⟩
    intro fails outcome
    cases outcome with
    | succeeds success => exact absurd fails success
    | fails same => exact untouched_update found same
    | throws same => exact untouched_update found same
    | pushes past => exact absurd past notPast
    | loads there => exact absurd ⟨_, there⟩ call

end VirtualOS

namespace Machine

variable {κ : Type} [DecidableEq κ] [Fintype κ]

/-- On every machine that any run reaches, the execution of a word by a process
is atomic when it fails, exactly when it is neither a push past the end of
memory nor a load that spills into the segments of its caller. -/
theorem instruction_atomic_iff {quantum : Nat} {input : List Word} {files : FileSystem} {actions : List (Action κ)}
    {machine : Machine κ} (ran : run files (boot quantum input) actions = some machine) {p : ProcessRef}
    {process : ProcessControlBlock} (found : machine.process? p = some process) (raw : Word) :
    (VirtualOS.Fails (machine.os.runWord files p process raw).1 →
        VirtualOS.Untouched p process machine.os (machine.os.runWord files p process raw).2) ↔
      ¬ (machine.os.context process).PushesPastMemory raw ∧ ¬ VirtualOS.LoadSpills files machine.os process raw := by
  have size := (placed_of_run ran).size
  refine VirtualOS.untouched_iff found ?_
  rw [size]
  decide

/-- A division by zero. -/
theorem instruction_atomic_divide :
    ∃ (machine : Machine (Fin 1)) (process : ProcessControlBlock),
      run (fun _ => none) (boot 100 []) [.load "DATA:\nWORD x 5\nCODE:\nhalt\n".toList] = some machine ∧
      machine.process? 0 = some process ∧
      VirtualOS.Fails (machine.os.runWord (fun _ => none) 0 process 0x0400F000).1 ∧
      VirtualOS.Untouched 0 process machine.os (machine.os.runWord (fun _ => none) 0 process 0x0400F000).2 := by
  have loaded : (run (fun _ => none) (boot 100 []) [.load "DATA:\nWORD x 5\nCODE:\nhalt\n".toList]).any
      (fun machine : Machine (Fin 1) => (machine.process? 0).any (fun process =>
        decide ((machine.os.runWord (fun _ => none) 0 process 0x0400F000).1 = .ok .Error))) = true := by decide +kernel
  obtain ⟨machine, ran, present⟩ := (Option.any_eq_true _ _).mp loaded
  obtain ⟨process, found, failed⟩ := (Option.any_eq_true _ _).mp present
  have fails : VirtualOS.Fails (machine.os.runWord (fun _ => none) 0 process 0x0400F000).1 := by
    rw [of_decide_eq_true failed]
    rfl
  refine ⟨machine, process, ran, found, fails, (instruction_atomic_iff ran found 0x0400F000).mpr ⟨?_, ?_⟩ fails⟩
  · rintro ⟨push, _⟩
    exact absurd push (by decide)
  · rintro ⟨path, source, program, ⟨call, _⟩, _⟩
    exact absurd call (by decide)

/-- A machine on which one program has been loaded. -/
theorem exists_loaded (files : FileSystem) (quantum : Nat) (input : List Word) {source : Text}
    {program : AssembledProgram}
    {layout : MemoryRegionLayout} {physical : PhysicalMemory} (accepted : assemble source = .ok program)
    (loaded : load {} program = (.ok layout, physical)) :
    ∃ machine : Machine κ, run files (boot quantum input) [.load source] = some machine ∧
      ∃ process, machine.process? 0 = some process ∧ process.layout = layout ∧
        process.context.registers.sp = VirtualOS.initialStackPointer layout ∧ machine.os.physicalMemory = physical := by
  have emplaced : (VirtualOS.create quantum input).emplaceProgram source =
      (.ok 0, (VirtualOS.create quantum input).emplaced physical layout) := by
    rw [VirtualOS.emplaceProgram, accepted]
    change (VirtualOS.create quantum input).emplaceLoaded (load {} program) = _
    rw [loaded]
    rfl
  have left : ((VirtualOS.create quantum input).loadProgramFromSource source).2 =
      (VirtualOS.create quantum input).published physical layout := by
    rw [VirtualOS.loadProgramFromSource, emplaced]
    rfl
  have ran : run files (boot quantum input) [.load source] = some { boot quantum input with
      os := (VirtualOS.create quantum input).published physical layout : Machine κ } := by
    rw [← left]
    rfl
  refine ⟨_, ran, ((VirtualOS.create quantum input).newProcess layout 1).setState .Ready, ?_, rfl, rfl, rfl⟩
  have new := (VirtualOS.create quantum input).process?_emplaced_new physical layout
  have published := ((VirtualOS.create quantum input).emplaced physical layout).process?_setState_same (p := 0) .Ready
  exact published.trans (congrArg (Option.map (fun process => process.setState .Ready)) new)

/-- A program whose stack lies behind the end of memory is loaded, and its
first push fails with SP moved. -/
theorem instruction_atomic_fails_for_stackBehindMemory :
    ¬ ∀ (quantum : Nat) (input : List Word) (files : FileSystem) (actions : List (Action (Fin 1)))
        (machine : Machine (Fin 1)) (p : ProcessRef) (process : ProcessControlBlock) (raw : Word),
        run files (boot quantum input) actions = some machine → machine.process? p = some process →
        VirtualOS.Fails (machine.os.runWord files p process raw).1 →
        VirtualOS.Untouched p process machine.os (machine.os.runWord files p process raw).2 := by
  intro atomic
  obtain ⟨program, accepted, length, noData⟩ := Source.accepted_halts 262143
  have loads : Loads {} program := ⟨by decide, by rw [length, noData]; decide⟩
  obtain ⟨physical, loaded, changes⟩ := load_of_loads loads (by decide)
  obtain ⟨machine, ran, process, found, layout, sp, size⟩ :=
    exists_loaded (κ := Fin 1) (fun _ => none) 100 [] accepted loaded
  have packed : (layoutFor 0 program).Packed := layoutFor_packed (by rw [length, noData]; decide)
  have stackAddress : (layoutFor 0 program).stackAddress.toNat = 1048572 := by
    rw [packed.stackAddress, base_layoutFor, codeSize_layoutFor, dataSize_layoutFor, length, noData]
    rfl
  have top : process.context.registers.sp.toNat = 1052664 := by
    rw [sp, VirtualOS.initialStackPointer, stackAddress]
    rfl
  refine ((instruction_atomic_iff ran found 0x1900F007).mp (atomic _ _ _ _ _ _ _ _ ran found)).1 ⟨by decide, ?_, ?_⟩
  · refine ProcessMemory.canPush_iff.mpr ?_
    change process.layout.stackAddress.toNat + 4 ≤ process.context.registers.sp.toNat ∧
      process.context.registers.sp.toNat ≤ process.layout.stackAddress.toNat + process.layout.stackSize
    have stackSize : (layoutFor 0 program).stackSize = 4096 := rfl
    rw [layout, stackAddress, top, stackSize]
    decide
  · change machine.os.physicalMemory.size < process.context.registers.sp.toNat
    rw [size, changes.size, top]
    decide

end Machine

end VirtualMachine
