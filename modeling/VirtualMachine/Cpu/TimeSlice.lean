import VirtualMachine.Os.StepCalls
import VirtualMachine.MutualExclusion

namespace VirtualMachine

/-- No flag is set that makes a core give up the process. -/
def CpuContext.Clear (context : CpuContext) : Prop := context.halted = false ∧ context.shouldYield = false

namespace ExecutionContext

/-- The next instruction halts its process, fails or is the yield system call. -/
def EndsTurn (ctx : ExecutionContext) : Prop := ctx.NextCalls .Exit ∨ ctx.NextStops ∨ ctx.NextCalls .Yield

/-- The time slice and the request to yield are as before. -/
structure SameTurn (before after : ExecutionContext) : Prop where
  timeSliceLeft : after.process.context.timeSliceLeft = before.process.context.timeSliceLeft
  shouldYield : after.process.context.shouldYield = before.process.context.shouldYield

end ExecutionContext

open ExecutionContext

theorem Effect.apply_sameTurn (effect : Effect) (ctx : ExecutionContext) : SameTurn ctx (effect.apply ctx).2 := by
  cases effect <;> exact ⟨rfl, rfl⟩

/-- An effect after which the instruction reports `Yield`. -/
def Effect.yields : Effect → Bool
  | registers _ result => result == .Yield
  | _ => false

/-- No instruction of the registry yields. -/
theorem effect_yields (instruction : DecodedInstruction) (ctx : ExecutionContext) :
    (effect instruction ctx).yields = false := by
  unfold effect
  cases Opcode.ofByte? instruction.opcode with
  | none => rfl
  | some opcode =>
    cases opcode
    case LOAD =>
      simp only [loadEffect]
      split <;> rfl
    case STORE =>
      simp only [storeEffect]
      split <;> rfl
    case PUSH =>
      simp only [pushEffect]
      repeat' split
      all_goals rfl
    case POP | RET =>
      simp only [popEffect]
      repeat' split
      all_goals rfl
    all_goals first | rfl | (dsimp only; split <;> rfl)

theorem SyscallHandler.handle_sameTurn {id : Option SyscallId} (argAddress : Word) (ctx : ExecutionContext)
    (other : id ≠ some .Yield) : SameTurn ctx (handle id argAddress ctx).2 := by
  rcases id with _ | id
  · exact ⟨rfl, rfl⟩
  · cases id with
    | Print =>
      unfold handle
      cases ctx.memory.readDataWord argAddress <;> exact ⟨rfl, rfl⟩
    | Scan =>
      unfold handle
      cases ctx.input with
      | nil => exact ⟨rfl, rfl⟩
      | cons value rest =>
        dsimp only
        split <;> exact ⟨rfl, rfl⟩
    | Exit => exact ⟨rfl, rfl⟩
    | Yield => exact absurd rfl other
    | Load =>
      unfold handle
      cases readLoadPath ctx.memory argAddress 256 0 <;> exact ⟨rfl, rfl⟩

section Instructions

variable {ctx after : ExecutionContext} {result : ExecutionResult}

theorem beginInstruction_yields (began : beginInstruction ctx = (.ok (.finished .Yield), after)) :
    ctx.NextCalls .Yield := by
  obtain ⟨instruction, fetched, ⟨registered, worked, applied, -⟩ | ⟨call, handled, -, finished⟩⟩ :=
    beginInstruction_finished began
  · have never := effect_yields instruction ctx
    revert applied never
    cases effect instruction ctx with
    | registers registers result =>
      intro applied never
      cases applied
      cases never
    | store | halt | fail | throw =>
      intro applied
      cases applied
  · refine ⟨instruction, fetched, call, ?_⟩
    unfold finishCall at finished
    dsimp only at finished
    split at finished
    · cases finished
    · split at finished
      · assumption
      · cases finished

/-- The instructions after which a core looks at the time slice. Each has used
one unit of it, in whichever of the two places. -/
theorem beginInstruction_timeSlice (began : beginInstruction ctx = (.ok (.finished result), after))
    (alive : ¬ result.Ends) (stays : result ≠ .Yield) :
    after.process.context.timeSliceLeft = ctx.process.context.timeSliceLeft - 1 ∧
      after.process.context.shouldYield = ctx.process.context.shouldYield := by
  obtain ⟨instruction, fetched, ⟨registered, worked, applied, rfl⟩ | ⟨call, handled, done, finished⟩⟩ :=
    beginInstruction_finished began
  · have same := (effect instruction ctx).apply_sameTurn ctx
    rw [applied] at same
    exact ⟨congrArg (· - 1) same.timeSliceLeft, same.shouldYield⟩
  · unfold finishCall at finished
    dsimp only at finished
    split at finished
    · cases finished
      exact absurd (Or.inl rfl) alive
    · split at finished
      · cases finished
        exact absurd rfl stays
      · rename_i other
        cases finished
        have same := SyscallHandler.handle_sameTurn (instruction.imm.setWidth 32) ctx other
        rw [done] at same
        exact ⟨congrArg (· - 1) same.timeSliceLeft, same.shouldYield⟩

theorem beginInstruction_halted (began : beginInstruction ctx = (.ok (.finished result), after))
    (alive : ¬ result.Ends) : after.process.context.halted = ctx.process.context.halted := by
  have outcome := beginInstruction_outcome ctx
  rw [began] at outcome
  cases outcome with
  | finished completes noLoad failed halted kept => exact (kept (fun halt => alive (Or.inl halt))).2

theorem beginInstruction_endsTurn (began : beginInstruction ctx = (.ok (.finished result), after))
    (ended : result.Ends ∨ result = .Yield) : ctx.EndsTurn := by
  rcases ended with ends | rfl
  · rcases beginInstruction_ends ends began with exit | stops
    · exact Or.inl exit
    · exact Or.inr (Or.inl stops)
  · exact Or.inr (Or.inr (beginInstruction_yields began))

end Instructions

/-- The instructions of a whole turn, from the acquisition of a process to its
release: at least one and at most a quantum of them, and fewer only if the last
one has ended the turn. -/
structure WithinQuantum (quantum : Nat) (instructions : List ExecutionContext) : Prop where
  atLeast : 1 ≤ instructions.length
  atMost : instructions.length ≤ quantum
  early : instructions.length < quantum → ∃ last ∈ instructions.getLast?, last.EndsTurn

namespace WithinQuantum

variable {quantum : Nat} {instructions : List ExecutionContext} {last : ExecutionContext}

theorem of_full (some : 1 ≤ instructions.length) (full : instructions.length = quantum) :
    WithinQuantum quantum instructions :=
  ⟨some, full.le, fun fewer => absurd full (Nat.ne_of_lt fewer)⟩

theorem of_last (room : instructions.length < quantum) (ends : last.EndsTurn) :
    WithinQuantum quantum (instructions ++ [last]) where
  atLeast := by simp
  atMost := by
    rw [List.length_append, List.length_singleton]
    exact room
  early _ := ⟨last, by simp, ends⟩

end WithinQuantum

/-- What the result of the last instruction says about a turn, where `context`
is the context that the instruction has left. -/
structure TurnResult (quantum : Nat) (instructions : List ExecutionContext) (result : ExecutionResult)
    (context : CpuContext) : Prop where
  ended : result.Ends ∨ result = .Yield → WithinQuantum quantum instructions
  alive : ¬ result.Ends → context.halted = false
  goesOn : ¬ result.Ends → result ≠ .Yield → context.shouldYield = false ∧ 1 ≤ instructions.length ∧
    context.timeSliceLeft + instructions.length = quantum

/-- The core has executed these instructions since it has acquired the process it holds. -/
def CoreState.InTurn (quantum : Nat) (os : VirtualOS) (instructions : List ExecutionContext) : CoreState → Prop
  | holding p => ∃ process, os.process? p = some process ∧ process.context.Clear ∧
      0 < process.context.timeSliceLeft ∧ process.context.timeSliceLeft + instructions.length = quantum
  | loading p _ _ => ∃ process, os.process? p = some process ∧ process.context.Clear ∧
      0 < process.context.timeSliceLeft ∧ 1 ≤ instructions.length ∧
      process.context.timeSliceLeft + instructions.length = quantum + 1
  | executed p result => ∃ process, os.process? p = some process ∧
      TurnResult quantum instructions result process.context
  | releasing p true => ∃ process, os.process? p = some process ∧ WithinQuantum quantum instructions ∧
      process.state = .Running ∧ process.context.Clear
  | releasing p false => ∃ process, os.process? p = some process ∧ WithinQuantum quantum instructions ∧
      process.state = .Halted
  | _ => True

/-- The instruction that the next step of a core executes, if it executes one. -/
def CoreState.instruction? (stopRequested : Bool) (os : VirtualOS) : CoreState → Option ExecutionContext
  | holding p =>
    if stopRequested then none
    else
      (os.process? p).bind (fun process =>
        if process.context.halted = true ∨ process.state = .Halted then none else some (os.context process))
  | _ => none

/-- Only the process a core holds matters to its turn. -/
theorem CoreState.InTurn.congr {quantum : Nat} {os after : VirtualOS} {instructions : List ExecutionContext}
    {state : CoreState} (inTurn : state.InTurn quantum os instructions)
    (same : ∀ p, state.held = some p → after.process? p = os.process? p) : state.InTurn quantum after instructions := by
  cases state with
  | holding q | loading q child stage | executed q result => simpa only [InTurn, same q rfl] using inTurn
  | releasing q preempt => cases preempt <;> simpa only [InTurn, same q rfl] using inTurn
  | seeking | idle | notifying | exited | terminated => trivial

theorem CoreState.InTurn.of_free {quantum : Nat} {os : VirtualOS} {instructions : List ExecutionContext}
    {state : CoreState} (free : ∀ p, state.held ≠ some p) : state.InTurn quantum os instructions := by
  cases state with
  | holding q | loading q child stage | executed q result | releasing q preempt => exact absurd rfl (free q)
  | seeking | idle | notifying | exited | terminated => trivial

namespace CoreLoop

variable {files : FileSystem} {stopRequested : Bool} {os after : VirtualOS} {state next : CoreState}
  {p : ProcessRef} {process : ProcessControlBlock} {quantum : Nat} {instructions : List ExecutionContext}
  {result : ExecutionResult}

theorem dispose_inTurn (found : os.process? p = some process)
    (running : process.context.halted = false → process.state = .Running)
    (turn : TurnResult quantum instructions result process.context) :
    (dispose os p process result).1.InTurn quantum (dispose os p process result).2 instructions := by
  have written : ∀ f : ProcessControlBlock → ProcessControlBlock,
      (os.modifyProcess p f).process? p = some (f process) := by
    intro f
    rw [os.process?_modifyProcess_same, found, Option.map_some]
  unfold dispose
  split
  · rename_i halts
    have ends : result.Ends := by
      by_contra alive
      rcases halts with halt | halted
      · exact alive (Or.inl halt)
      · exact absurd halted (by rw [turn.alive alive]; decide)
    exact ⟨_, written _, turn.ended (Or.inl ends), rfl⟩
  · rename_i alive
    rw [not_or, Bool.not_eq_true] at alive
    split
    · rename_i error
      exact ⟨_, written _, turn.ended (Or.inl (Or.inr error)), rfl⟩
    · rename_i noError
      have noEnd : ¬ result.Ends := not_or.mpr ⟨alive.1, noError⟩
      split
      · rename_i yields
        have yield : result = .Yield := by
          by_contra stays
          rcases yields with yield | should
          · exact stays yield
          · exact absurd should (by rw [(turn.goesOn noEnd stays).1]; decide)
        exact ⟨_, written _, turn.ended (Or.inr yield), running alive.2, alive.2, rfl⟩
      · rename_i stays
        obtain ⟨clear, some, account⟩ := turn.goesOn noEnd (fun yield => stays (Or.inl yield))
        split
        · rename_i used
          rw [used, Nat.zero_add] at account
          exact ⟨process, found, .of_full some account, running alive.2, alive.2, clear⟩
        · rename_i left
          exact ⟨process, found, ⟨alive.2, clear⟩, Nat.pos_of_ne_zero left, account⟩

/-- An instruction that has begun with some of the time slice left. -/
theorem turnResult_of_finished {ctx : ExecutionContext} (clear : process.context.Clear)
    (left : 0 < process.context.timeSliceLeft)
    (account : process.context.timeSliceLeft + instructions.length = quantum)
    (began : beginInstruction (os.context process) = (.ok (.finished result), ctx)) :
    TurnResult quantum (instructions ++ [os.context process]) result ctx.process.context := by
  have room : instructions.length < quantum := by omega
  refine ⟨fun ended => .of_last room (beginInstruction_endsTurn began ended), fun alive => ?_, fun alive stays => ?_⟩
  · exact (beginInstruction_halted began alive).trans clear.1
  · obtain ⟨used, kept⟩ := beginInstruction_timeSlice began alive stays
    refine ⟨kept.trans clear.2, by simp, ?_⟩
    have before : (os.context process).process.context.timeSliceLeft = process.context.timeSliceLeft := rfl
    rw [List.length_append, List.length_singleton]
    omega

theorem execute_inTurn (found : os.process? p = some process) (running : process.state = .Running)
    (clear : process.context.Clear) (left : 0 < process.context.timeSliceLeft)
    (account : process.context.timeSliceLeft + instructions.length = quantum) :
    (execute files os p process).1.InTurn quantum (execute files os p process).2
      (instructions ++ [os.context process]) := by
  have alive : process.context.halted = false ∧ process.state ≠ .Halted := by
    rw [running]
    exact ⟨clear.1, by decide⟩
  have move : CoreMove files false os (.holding p) (execute files os p process).1 (execute files os p process).2 :=
    execute_move found alive
  revert move
  rcases execute files os p process with ⟨next, after⟩
  intro move
  cases move with
  | leave stop top => cases stop
  | discard here halted =>
    obtain rfl := Option.some.inj (found.symm.trans here)
    rcases halted with flag | state
    · exact absurd flag (by rw [alive.1]; decide)
    · exact absurd state alive.2
  | throw | loadFails => trivial
  | @finish _ _ result ctx here alive began =>
    obtain rfl := Option.some.inj (found.symm.trans here)
    exact ⟨ctx.process, os.process?_update_same ctx found, turnResult_of_finished clear left account began⟩
  | @emplace _ _ path source program layout physical here alive load opened accepted loaded =>
    obtain rfl := Option.some.inj (found.symm.trans here)
    have current := os.process?_update_same (os.context process) found
    have kept : ((os.update p (os.context process)).emplaced physical layout).process? p = some process :=
      (VirtualOS.process?_emplaced_old _ physical layout (VirtualOS.lt_length_of_process? current)).trans current
    refine ⟨process, kept, clear, left, by simp, ?_⟩
    rw [List.length_append, List.length_singleton]
    omega

/-- A step of a core that holds a process counts the instruction that it executes. -/
theorem step_inTurn (taken : step files stopRequested os state = some (next, after)) (consistent : state.Consistent os)
    (inTurn : state.InTurn quantum os instructions) (holds : state.held ≠ none)
    (apart : ∀ p, state ≠ .loading p p .emplaced) :
    next.InTurn quantum after (instructions ++ (state.instruction? stopRequested os).toList) := by
  cases state with
  | holding p =>
    obtain ⟨process, found, clear, left, account⟩ := inTurn
    obtain ⟨same, here, running⟩ := consistent
    obtain rfl := Option.some.inj (found.symm.trans here)
    have goes : ¬ (process.context.halted = true ∨ process.state = .Halted) := by
      rw [clear.1, running]
      decide
    simp only [step, CoreState.instruction?, found, Option.map_some, Option.bind_some, if_neg goes] at taken ⊢
    split at taken
    · cases taken
      trivial
    · rename_i onward
      obtain ⟨rfl, rfl⟩ := Prod.ext_iff.mp (Option.some.inj taken)
      rw [if_neg onward]
      exact execute_inTurn found running clear left account
  | loading p child stage =>
    obtain ⟨process, found, clear, left, some, account⟩ := inTurn
    have none : (CoreState.loading p child stage).instruction? stopRequested os = Option.none := rfl
    rw [none, Option.toList_none, List.append_nil]
    cases stage with
    | emplaced =>
      cases taken
      have other : p ≠ child := fun same => apart p (by rw [← same])
      exact ⟨process, (os.process?_setState_other _ other).trans found, clear, left, some, account⟩
    | ready =>
      cases taken
      have here : os.notifyProcessReady.process? p = Option.some process := found
      rw [VirtualOS.finishLoad_eq here]
      refine ⟨_, VirtualOS.process?_update_same _ _ here, fun ended => absurd ended (by decide), fun _ => clear.1,
        fun _ _ => ⟨clear.2, some, ?_⟩⟩
      have used : (finishCall (Option.some .Load)
          (os.notifyProcessReady.context process)).2.process.context.timeSliceLeft =
        process.context.timeSliceLeft - 1 := rfl
      omega
  | executed p result =>
    obtain ⟨process, found, turn⟩ := inTurn
    simp only [step, found, Option.map_some, Option.some.injEq] at taken
    obtain ⟨rfl, rfl⟩ := Prod.ext_iff.mp taken
    have none : (CoreState.executed p result).instruction? stopRequested os = Option.none := rfl
    rw [none, Option.toList_none, List.append_nil]
    obtain ⟨same, here, state⟩ := consistent
    obtain rfl := Option.some.inj (found.symm.trans here)
    refine dispose_inTurn found (fun alive => ?_) turn
    rcases state with running | ⟨-, halted⟩
    · exact running
    · exact absurd halted (by rw [alive]; decide)
  | releasing p preempt =>
    cases step_move taken <;> trivial
  | seeking | idle | notifying | exited | terminated => exact absurd rfl holds

end CoreLoop

end VirtualMachine
