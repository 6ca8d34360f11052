import VirtualMachine.Cpu.SameView
import VirtualMachine.Os.Separation

namespace VirtualMachine

open ProgramLoader

/-- An effect after which the instruction reports `Halt` or `Error`. -/
def Effect.stops : Effect → Bool
  | halt | fail _ _ => true
  | _ => false

/-- The next instruction is `HALT`, or one that fails with an error. -/
def ExecutionContext.NextStops (ctx : ExecutionContext) : Prop :=
  ∃ instruction ∈ ctx.fetch?, instruction.opcode ≠ Opcode.CALL.toByte ∧ (effect instruction ctx).stops = true

instance (ctx : ExecutionContext) : Decidable ctx.NextStops :=
  inferInstanceAs (Decidable (∃ instruction ∈ ctx.fetch?, _ ∧ _))

/-- How an instruction says that its process has ended. -/
def ExecutionResult.Ends (result : ExecutionResult) : Prop := result = .Halt ∨ result = .Error

instance (result : ExecutionResult) : Decidable result.Ends := inferInstanceAs (Decidable (_ ∨ _))

theorem beginInstruction_ends {ctx after : ExecutionContext} {result : ExecutionResult} (ends : result.Ends)
    (began : beginInstruction ctx = (.ok (.finished result), after)) : ctx.NextCalls .Exit ∨ ctx.NextStops := by
  obtain ⟨instruction, fetched, ⟨registered, worked, applied, -⟩ | ⟨call, handled, -, finished⟩⟩ :=
    beginInstruction_finished began
  · refine Or.inr ⟨instruction, fetched, registered, ?_⟩
    have continues : ¬ ExecutionResult.Continue.Ends := by decide
    have agrees := effect_agrees instruction ctx
    revert applied agrees
    cases effect instruction ctx with
    | halt | fail => exact fun _ _ => rfl
    | throw e =>
      intro applied
      cases applied
    | store address value registers =>
      intro applied
      cases applied
      exact absurd ends continues
    | registers after result =>
      intro applied agrees
      cases applied
      rcases ends with halt | error
      · exact absurd halt agrees.2.2
      · exact absurd error agrees.2.1
  · refine Or.inl ⟨instruction, fetched, call, ?_⟩
    unfold finishCall at finished
    dsimp only at finished
    split at finished
    · assumption
    · split at finished <;> cases finished <;> rcases ends with impossible | impossible <;> cases impossible

/-- The process and all its bytes are the same on both machines. -/
def VirtualOS.SameProcess (p : ProcessRef) (before after : VirtualOS) : Prop :=
  after.process? p = before.process? p ∧
    ∀ process, before.process? p = some process → ∀ segment ∈ process.layout.segments, ∀ k, segment.Contains k →
      after.physicalMemory.memory k = before.physicalMemory.memory k

namespace VirtualOS.SameProcess

variable {p : ProcessRef} {os before middle after : VirtualOS} {process : ProcessControlBlock}

theorem refl (p : ProcessRef) (os : VirtualOS) : SameProcess p os os := ⟨rfl, fun _ _ _ _ _ _ => rfl⟩

theorem trans (first : SameProcess p before middle) (last : SameProcess p middle after) :
    SameProcess p before after := by
  refine ⟨last.1.trans first.1, fun process found segment member k inside => ?_⟩
  exact (last.2 process (first.1.trans found) segment member k inside).trans
    (first.2 process found segment member k inside)

theorem of_below (separate : before.Separate) (kept : after.process? p = before.process? p)
    (below : ∀ k, k < before.physicalMemory.nextFreeAddress.toNat →
      after.physicalMemory.memory k = before.physicalMemory.memory k) : SameProcess p before after := by
  refine ⟨kept, fun process found segment member k inside => below k ?_⟩
  have within := (separate.fitting found).segment_within_region member
  exact separate.region_below found ⟨within.1.trans inside.1, Nat.lt_of_lt_of_le inside.2 within.2⟩

end VirtualOS.SameProcess

/-- Whatever happens to other processes leaves this one as it is. -/
theorem Apart.sameProcess {p q : ProcessRef} {before after : VirtualOS} (apart : Apart p before after)
    (separate : before.Separate) (other : q ≠ p) (old : q < before.processTable.processes.length) :
    VirtualOS.SameProcess q before after := by
  refine ⟨apart.kept q other old, fun process found segment member k inside => ?_⟩
  have within := (separate.fitting found).segment_within_region member
  exact apart.bytes q process other found k ⟨within.1.trans inside.1, Nat.lt_of_lt_of_le inside.2 within.2⟩

/-- A load system call is fetched from memory that no later load writes. -/
def ExecutionContext.LoadPlaced (ctx : ExecutionContext) : Prop :=
  ctx.loadPath? = none ∨ ctx.fetchAddress.toNat + 4 ≤ ctx.physical.nextFreeAddress.toNat

instance (ctx : ExecutionContext) : Decidable ctx.LoadPlaced := inferInstanceAs (Decidable (_ ∨ _))

namespace Execution

variable {files : FileSystem} {os : VirtualOS} {p : ProcessRef} {process : ProcessControlBlock}
  {outcome : Except Exception ExecutionResult × VirtualOS}

/-- An instruction that does not complete leaves its process as it is. -/
theorem of_not_completes (execution : Execution files os p process outcome) (separate : os.Separate)
    (found : os.process? p = some process) (stuck : ¬ (os.context process).Completes) :
    (∃ e, outcome.1 = .error e) ∧ VirtualOS.SameProcess p os outcome.2 := by
  have instruction := beginInstruction_outcome (os.context process)
  cases execution with
  | @threw e ctx began fails =>
    rw [began] at instruction
    cases instruction with
    | threw _ block physical input =>
      have current : (os.update p ctx).process? p = os.process? p := by
        rw [os.process?_update_same ctx found, block, found]
        rfl
      exact ⟨⟨e, rfl⟩, .of_below separate current (fun k _ => congrArg (fun memory => memory.memory k) physical)⟩
  | finished began =>
    rw [began] at instruction
    cases instruction with
    | finished completes => exact absurd completes stuck
  | loadFailed load => exact absurd (ExecutionContext.completes_of_loadPath? load) stuck
  | loaded completes => exact absurd completes stuck

/-- A load system call whose load fails leaves its process as it is. -/
theorem of_load_fails (execution : Execution files os p process outcome) (separate : os.Separate)
    (found : os.process? p = some process) (fits : (os.context process).LoadFits files) {path : List Byte}
    (load : (os.context process).loadPath? = some path) (fails : ¬ VirtualOS.LoadSucceeds files os path) :
    (∃ e, outcome.1 = .error e) ∧ VirtualOS.SameProcess p os outcome.2 := by
  have instruction := beginInstruction_outcome (os.context process)
  cases execution with
  | threw began stuck => exact absurd (ExecutionContext.completes_of_loadPath? load) stuck
  | finished began =>
    rw [began] at instruction
    cases instruction with
    | finished _ noLoad => exact nomatch noLoad.symm.trans load
  | @loadFailed other e physical same left failed =>
    have current : (os.update p (os.context process)).process? p = os.process? p := by
      rw [os.process?_update_same _ found, found]
      rfl
    have leaves := left.leaves (Allocated.size separate) (fits other same)
    exact ⟨⟨e, rfl⟩, .of_below separate current leaves.below⟩
  | @loaded other source program layout physical _ same opened accepted ran =>
    rw [load] at same
    cases same
    rcases load_cases (Allocated.size separate) program with ⟨loads, _⟩ | ⟨_, e, after, failed, _⟩
    · exact absurd ⟨source, program, opened, accepted, loads⟩ fails
    · exact nomatch (Prod.mk.inj (ran.symm.trans failed)).1

/-- An instruction that throws leaves its process as it is, and throws again. -/
theorem again {after : VirtualOS} {e : Exception} (execution : Execution files os p process (.error e, after))
    (separate : os.Separate) (found : os.process? p = some process) (fits : (os.context process).LoadFits files)
    (placed : (os.context process).LoadPlaced) :
    VirtualOS.SameProcess p os after ∧ ∀ outcome, Execution files after p process outcome →
      (∃ e, outcome.1 = .error e) ∧ VirtualOS.SameProcess p after outcome.2 := by
  have kept := execution.apart separate found fits
  cases execution with
  | @threw _ ctx began fails =>
    have whole : Execution files os p process (.error e, os.update p ctx) := .threw began fails
    obtain ⟨_, same⟩ := whole.of_not_completes separate found fails
    have instruction := beginInstruction_outcome (os.context process)
    rw [began] at instruction
    cases instruction with
    | threw _ block physical input =>
      have stuck : ¬ ((os.update p ctx).context process).Completes :=
        fun completes => fails (completes.of_same rfl physical input)
      exact ⟨same, fun outcome second => second.of_not_completes kept.separate (same.1.trans found) stuck⟩
  | @loadFailed path _ physical load left failed =>
    have leaves := left.leaves (Allocated.size separate) (fits path load)
    have fails : ¬ VirtualOS.LoadSucceeds files os path := by
      intro succeeds
      obtain ⟨child, done⟩ := (VirtualOS.emplaceFile_ok_iff files (os.update p (os.context process))
        (Allocated.size separate) path).mpr succeeds
      rw [failed] at done
      cases done
    have whole : Execution files os p process
        (.error e, { os.update p (os.context process) with physicalMemory := physical }) := .loadFailed load left failed
    obtain ⟨_, same⟩ := whole.of_load_fails separate found fits load fails
    -- The failed load has written above the region of the process and above the instruction.
    have view : SameView (os.context process)
        (VirtualOS.context { os.update p (os.context process) with physicalMemory := physical } process) :=
      ⟨rfl, rfl, rfl, leaves.size.symm, fun k inside => (leaves.below k (separate.region_below found inside)).symm⟩
    have fetched : (os.context process).fetch? =
        (VirtualOS.context { os.update p (os.context process) with physicalMemory := physical } process).fetch? := by
      have low := placed.resolve_left (by rw [load]; exact fun impossible => nomatch impossible)
      have word : os.physicalMemory.wordAt (os.context process).fetchAddress =
          physical.wordAt (os.context process).fetchAddress :=
        PhysicalMemory.wordAt_congr (fun k _ high => (leaves.below k (Nat.lt_of_lt_of_le high low)).symm)
      have size : physical.size = os.physicalMemory.size := leaves.size
      show (if _ ≤ os.physicalMemory.size then some (decodeInstruction (os.physicalMemory.wordAt _)) else none) =
        if _ ≤ physical.size then some (decodeInstruction (physical.wordAt _)) else none
      rw [size, word]
      rfl
    have sameLoad := (view.loadPath? (separate.fitting found) fetched).symm.trans load
    refine ⟨same, fun outcome second => ?_⟩
    refine second.of_load_fails kept.separate (same.1.trans found) (fun other isPath => ?_) sameLoad ?_
    · rw [sameLoad] at isPath
      cases isPath
      exact fits path load
    · rintro ⟨source, program, opened, accepted, loads⟩
      refine fails ⟨source, program, opened, accepted, ?_⟩
      have grows := leaves.grows
      have size := leaves.size
      obtain ⟨room, inside⟩ := loads
      dsimp only at room inside
      exact ⟨by omega, by omega⟩

end Execution

namespace VirtualOS

variable {files : FileSystem} {os after : VirtualOS} {id : ProcessId} {p : ProcessRef} {process : ProcessControlBlock}
  {result : ExecutionResult}

/-- An instruction other than the exit system call leaves a stepped process
running, so one that ends it and is not said to stop it has halted it. -/
theorem stepProcess_halted (ends : result.Ends) (known : os.processTable.find id = some p)
    (found : os.process? p = some process) (goes : ¬ (os.context process).NextStops)
    (stepped : os.stepProcess files id = (.ok result, after)) :
    ∃ current, after.process? p = some current ∧ current.state = .Halted := by
  have running : (os.setState p .Running).process? p = some (process.setState .Running) := by
    rw [process?_setState_same, found]
    rfl
  have execution := executeInstruction_execution files (os.setState p .Running) p (process.setState .Running)
  rw [← stepProcess_of_find known found, stepped] at execution
  cases execution with
  | @finished result ctx began =>
    rcases beginInstruction_ends ends began with exit | stops
    · obtain ⟨halted, ran, state, -⟩ := beginInstruction_exit exit
      rw [began] at ran
      cases ran
      exact ⟨ctx.process, process?_update_same _ ctx running, state⟩
    · exact absurd stops goes
  | loaded completes load opened accepted ran => exact absurd ends (by decide)

/-- The same for a call that has ended its process. -/
theorem stepLoop_halted {good : ExecutionContext → Bool} {steps : Nat} {last : ExecutionResult}
    (goes : ∀ ctx, good ctx = true → ¬ ctx.NextStops) (each : eachInstruction good files id p steps os = true)
    (known : os.processTable.find id = some p) (alive : ¬ last.Ends) (ends : result.Ends)
    (ran : stepLoop files id steps last os = (.ok result, after)) :
    ∃ current, after.process? p = some current ∧ current.state = .Halted := by
  induction steps generalizing last os with
  | zero =>
    cases ran
    exact absurd ends alive
  | succ steps ih =>
    obtain ⟨process, found⟩ := process?_of_find known
    rw [eachInstruction, found, Option.all_some, Bool.and_eq_true] at each
    obtain ⟨here, later⟩ := each
    have others := stepProcess_others files known
    unfold stepLoop at ran
    rcases stepped : os.stepProcess files id with ⟨e | middle, next⟩
    · rw [stepped] at ran
      cases ran
    · rw [stepped] at ran later others
      dsimp only at ran later
      split at ran
      · rename_i stop
        cases ran
        exact stepProcess_halted ends known found (goes _ here) stepped
      · rename_i goesOn
        have rest : eachInstruction good files id p steps next = true := by
          simpa [not_or.mp goesOn] using later
        exact ih rest (ProcessTable.find_of_ids others.ids known) goesOn ran

/-- Two calls of `step` are one, if the first has come back without an end. -/
theorem stepLoop_add {more steps : Nat} {last : ExecutionResult} (alive : ¬ result.Ends)
    (ran : stepLoop files id steps last os = (.ok result, after)) :
    stepLoop files id (steps + more) last os = stepLoop files id more result after := by
  induction steps generalizing last os with
  | zero =>
    cases ran
    rw [Nat.zero_add]
  | succ steps ih =>
    rw [Nat.succ_add]
    rw [stepLoop] at ran ⊢
    revert ran
    rcases os.stepProcess files id with ⟨e | middle, next⟩
    · exact fun impossible => nomatch (Prod.mk.inj impossible).1
    · intro ran
      dsimp only at ran ⊢
      split at ran
      · rename_i stop
        cases ran
        exact absurd stop alive
      · rename_i goesOn
        rw [if_neg goesOn]
        exact ih ran

/-- A call that has ended its process, or has thrown, would have done no more
with more steps. -/
theorem stepLoop_add_ended {more steps : Nat} {last : ExecutionResult} {outcome : Except Exception ExecutionResult}
    (alive : ¬ last.Ends) (ended : ∀ result, outcome = .ok result → result.Ends)
    (ran : stepLoop files id steps last os = (outcome, after)) :
    stepLoop files id (steps + more) last os = (outcome, after) := by
  induction steps generalizing last os with
  | zero =>
    cases ran
    exact absurd (ended last rfl) alive
  | succ steps ih =>
    rw [Nat.succ_add]
    rw [stepLoop] at ran ⊢
    revert ran
    rcases os.stepProcess files id with ⟨e | middle, next⟩
    · exact fun ran => ran
    · intro ran
      dsimp only at ran ⊢
      split at ran
      · rename_i stop
        rw [if_pos stop]
        exact ran
      · rename_i goesOn
        rw [if_neg goesOn]
        exact ih goesOn ran

theorem stepLoop_last (steps : Nat) (last other : ExecutionResult) (os : VirtualOS) :
    (stepLoop files id steps last os).2 = (stepLoop files id steps other os).2 := by
  cases steps <;> rfl

/-- The last instruction of a call that throws. -/
theorem stepLoop_error {good : ExecutionContext → Bool} {steps : Nat} {last : ExecutionResult} {e : Exception}
    (fits : ∀ ctx, good ctx = true → ctx.LoadFits files) (separate : os.Separate)
    (known : os.processTable.find id = some p) (each : eachInstruction good files id p steps os = true)
    (ran : stepLoop files id steps last os = (.error e, after)) :
    ∃ (before : VirtualOS) (process : ProcessControlBlock), before.Separate ∧ before.processTable.find id = some p ∧
      before.process? p = some process ∧
      good (before.context process) = true ∧ before.stepProcess files id = (.error e, after) := by
  induction steps generalizing last os with
  | zero => exact nomatch (Prod.mk.inj ran).1
  | succ steps ih =>
    obtain ⟨process, found⟩ := process?_of_find known
    rw [eachInstruction, found, Option.all_some, Bool.and_eq_true] at each
    obtain ⟨here, later⟩ := each
    have apart := stepProcess_apart separate known found (fits _ here)
    rw [stepLoop] at ran
    rcases stepped : os.stepProcess files id with ⟨error | middle, next⟩
    · rw [stepped] at ran
      exact ⟨os, process, separate, known, found, here, stepped.trans ran⟩
    · rw [stepped] at ran later apart
      dsimp only at ran later
      split at ran
      · exact nomatch (Prod.mk.inj ran).1
      · rename_i goesOn
        have rest : eachInstruction good files id p steps next = true := by
          simpa [not_or.mp goesOn] using later
        exact ih apart.separate (ProcessTable.find_of_ids apart.ids known) rest ran

/-- A call after one that has thrown throws at once and changes nothing. -/
theorem stepLoop_again {steps : Nat} {last : ExecutionResult} {e : Exception} {before : VirtualOS}
    (separate : before.Separate) (known : before.processTable.find id = some p)
    (found : before.process? p = some process) (fits : (before.context process).LoadFits files)
    (placed : (before.context process).LoadPlaced) (threw : before.stepProcess files id = (.error e, after)) :
    SameProcess p after (stepLoop files id steps last after).2 := by
  cases steps with
  | zero => exact .refl p after
  | succ steps =>
    have running : (before.setState p .Running).process? p = some (process.setState .Running) := by
      rw [process?_setState_same, found]
      rfl
    have set := Apart.of_setState separate p .Running
    have execution := executeInstruction_execution files (before.setState p .Running) p (process.setState .Running)
    rw [← stepProcess_of_find known found, threw] at execution
    obtain ⟨same, again⟩ := execution.again set.separate running fits placed
    have current : after.process? p = some (process.setState .Running) := same.1.trans running
    have stays := execution.apart set.separate running fits
    have knownAfter : after.processTable.find id = some p :=
      ProcessTable.find_of_ids stays.ids (ProcessTable.find_of_ids set.ids known)
    have second := executeInstruction_execution files after p (process.setState .Running)
    have stepped : after.stepProcess files id = after.executeInstruction files p (process.setState .Running) := by
      have stays : after.setState p .Running = after := setState_eq_self current rfl
      rw [stepProcess_of_find knownAfter current, stays]
      rfl
    obtain ⟨⟨error, failed⟩, kept⟩ := again _ second
    rw [stepLoop, stepped]
    revert failed kept
    rcases after.executeInstruction files p (process.setState .Running) with ⟨outcome, final⟩
    intro kept failed
    obtain rfl : outcome = .error error := failed
    exact kept

/-- Two calls of `step` leave the process as one call with all the steps does,
if the second one is not made on a process that has been halted. -/
theorem stepLoop_split {good : ExecutionContext → Bool} {steps more : Nat}
    (goes : ∀ ctx, good ctx = true → ¬ ctx.NextStops ∧ ctx.LoadFits files ∧ ctx.LoadPlaced) (separate : os.Separate)
    (known : os.processTable.find id = some p) (each : eachInstruction good files id p steps os = true)
    (alive : more = 0 ∨ ∀ process, (os.step files id steps).2.process? p = some process → process.state ≠ .Halted) :
    SameProcess p (os.step files id (steps + more)).2 ((os.step files id steps).2.step files id more).2 := by
  have continues : ¬ ExecutionResult.Continue.Ends := by decide
  unfold step at alive ⊢
  rcases ran : stepLoop files id steps .Continue os with ⟨e | result, after⟩
  · obtain ⟨before, process, separated, here, found, isGood, threw⟩ :=
      stepLoop_error (fun ctx isGood => (goes ctx isGood).2.1) separate known each ran
    rw [stepLoop_add_ended continues (by intro result impossible; cases impossible) ran]
    exact stepLoop_again separated here found (goes _ isGood).2.1 (goes _ isGood).2.2 threw
  · by_cases ends : result.Ends
    · rw [stepLoop_add_ended continues (fun other same => Except.ok.inj same ▸ ends) ran]
      rcases alive with rfl | alive
      · exact .refl p after
      · obtain ⟨current, found, halted⟩ :=
          stepLoop_halted (fun ctx isGood => (goes ctx isGood).1) each known continues ends ran
        rw [ran] at alive
        exact absurd halted (alive current found)
    · rw [stepLoop_add ends ran, stepLoop_last more result .Continue]
      exact .refl p _

end VirtualOS

end VirtualMachine
