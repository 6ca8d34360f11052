import VirtualMachine.Os.Execution

namespace VirtualMachine

/-- The exit system call is the one instruction that halts its process itself. -/
theorem beginInstruction_exit {ctx : ExecutionContext} (exit : ctx.NextCalls .Exit) :
    ∃ after, beginInstruction ctx = (.ok (.finished .Halt), after) ∧ after.process.state = .Halted ∧
      after.process.context.halted = true := by
  obtain ⟨instruction, fetched, call, known⟩ := exit
  have handled : SyscallHandler.handle (some .Exit) (instruction.imm.setWidth 32) ctx =
      (.ok .done, { ctx with process := (ctx.process.setState .Halted).setHalted true }) := rfl
  rw [beginInstruction_of_fetch fetched, if_pos call, executeCall, known, handled]
  exact ⟨_, rfl, rfl, rfl⟩

theorem ProcessTable.find_of_ids {before after : ProcessTable} {id : ProcessId} {p : ProcessRef}
    (ids : before.processes.map (fun process => process.id) <+: after.processes.map (fun process => process.id))
    (found : before.find id = some p) : after.find id = some p := by
  have byId : ∀ table : ProcessTable,
      table.find id = (table.processes.map (fun process => process.id)).findIdx? (fun other => other == id) := by
    intro table
    rw [List.findIdx?_map]
    rfl
  rw [byId] at found ⊢
  obtain ⟨rest, append⟩ := ids
  rw [← append, List.findIdx?_append, found]
  rfl

namespace VirtualOS

variable {files : FileSystem} {os : VirtualOS} {id : ProcessId} {p : ProcessRef} {process : ProcessControlBlock}

theorem process?_of_find (found : os.processTable.find id = some p) : ∃ process, os.process? p = some process := by
  obtain ⟨bound, -⟩ := List.findIdx?_eq_some_iff_getElem.mp found
  exact ⟨_, List.getElem?_eq_getElem bound⟩

theorem stepProcess_of_find (found : os.processTable.find id = some p) (here : os.process? p = some process) :
    os.stepProcess files id =
      (os.setState p .Running).executeInstruction files p (process.setState .Running) := by
  have running : (os.setState p .Running).process? p = some (process.setState .Running) := by
    rw [process?_setState_same, here]
    rfl
  rw [stepProcess, found]
  dsimp only
  rw [running]

theorem stepProcess_of_find_none (missing : os.processTable.find id = none) :
    os.stepProcess files id = (.error (.vmException "process not found"), os) := by
  rw [stepProcess, missing]

theorem stepProcess_others (files : FileSystem) (found : os.processTable.find id = some p) :
    OthersKept p os (os.stepProcess files id).2 := by
  obtain ⟨process, here⟩ := process?_of_find found
  have running : (os.setState p .Running).process? p = some (process.setState .Running) := by
    rw [process?_setState_same, here]
    rfl
  rw [stepProcess_of_find found here]
  have set : OthersKept p os (os.setState p .Running) := .of_modifyProcess os p (fun _ => rfl)
  exact set.trans ((executeInstruction_execution files _ p _).others running)

/-- What one instruction of a call of `step` keeps, the whole call does. -/
theorem stepLoop_invariant {invariant : VirtualOS → Prop}
    (kept : ∀ os, invariant os → invariant (os.stepProcess files id).2) (start : invariant os) (steps : Nat)
    (last : ExecutionResult) : invariant (stepLoop files id steps last os).2 := by
  induction steps generalizing last os with
  | zero => exact start
  | succ steps ih =>
    have stepped := kept os start
    unfold stepLoop
    revert stepped
    rcases os.stepProcess files id with ⟨e | result, after⟩
    · exact fun stepped => stepped
    · intro stepped
      dsimp only
      split
      · exact stepped
      · exact ih stepped result

/-- A step of any number of instructions touches one process. -/
theorem stepLoop_others (files : FileSystem) (steps : Nat) (last : ExecutionResult) (os : VirtualOS)
    (found : os.processTable.find id = some p) : OthersKept p os (stepLoop files id steps last os).2 := by
  have kept : ∀ after : VirtualOS, OthersKept p os after → OthersKept p os (after.stepProcess files id).2 :=
    fun after others => others.trans (stepProcess_others files (ProcessTable.find_of_ids others.ids found))
  exact stepLoop_invariant kept (.refl p os) steps last

theorem stepLoop_of_find_none (steps : Nat) (last : ExecutionResult) (missing : os.processTable.find id = none) :
    (stepLoop files id steps last os).2 = os := by
  cases steps with
  | zero => rfl
  | succ steps =>
    unfold stepLoop
    rw [stepProcess_of_find_none missing]

/-- Whether a call of `step` that works on process `p` executes an exit. -/
def reachesExit (files : FileSystem) (id : ProcessId) (p : ProcessRef) : Nat → VirtualOS → Bool
  | 0, _ => false
  | steps + 1, os =>
    (os.process? p).any (fun process => decide ((os.context process).NextCalls .Exit)) ||
      match os.stepProcess files id with
      | (.error _, _) => false
      | (.ok result, after) => result != .Halt && result != .Error && reachesExit files id p steps after

/-- An exit ends the call, with its process halted. -/
theorem stepLoop_exit {steps : Nat} (last : ExecutionResult) (exits : reachesExit files id p steps os = true)
    (found : os.processTable.find id = some p) :
    ∃ current, (stepLoop files id steps last os).2.process? p = some current ∧ current.state = .Halted ∧
      current.context.halted = true := by
  induction steps generalizing last os with
  | zero => cases exits
  | succ steps ih =>
    obtain ⟨process, here⟩ := process?_of_find found
    have stepped := stepProcess_others files found
    rw [reachesExit, Bool.or_eq_true, here, Option.any_some, decide_eq_true_eq] at exits
    unfold stepLoop
    rcases exits with exit | later
    · have running : (os.setState p .Running).process? p = some (process.setState .Running) := by
        rw [process?_setState_same, here]
        rfl
      have exitNow : ((os.setState p .Running).context (process.setState .Running)).NextCalls .Exit := exit
      obtain ⟨ctx, began, state, halted⟩ := beginInstruction_exit exitNow
      have ended : os.stepProcess files id = (.ok .Halt, (os.setState p .Running).update p ctx) := by
        rw [stepProcess_of_find found here, executeInstruction, VirtualOS.beginInstruction, began]
      rw [ended]
      exact ⟨ctx.process, process?_update_same _ ctx running, state, halted⟩
    · revert stepped later
      rcases os.stepProcess files id with ⟨e | result, after⟩
      · exact fun _ impossible => nomatch impossible
      · intro stepped later
        simp only [Bool.and_eq_true, bne_iff_ne] at later
        obtain ⟨⟨noHalt, noError⟩, exits⟩ := later
        dsimp only
        rw [if_neg (not_or.mpr ⟨noHalt, noError⟩)]
        exact ih result exits (ProcessTable.find_of_ids stepped.ids found)

end VirtualOS

end VirtualMachine
