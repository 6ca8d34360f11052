import VirtualMachine.MachineMove
import VirtualMachine.Os.Stepping

namespace VirtualMachine

open ProgramLoader

namespace VirtualOS

def layouts (os : VirtualOS) : List MemoryRegionLayout :=
  os.processTable.processes.map (fun process => process.layout)

/-- Every process of the machine lies in a region of its own. -/
def Separate (os : VirtualOS) : Prop := Allocated os.physicalMemory os.layouts

namespace Separate

variable {os : VirtualOS} {p q : ProcessRef} {process owner : ProcessControlBlock}

theorem create (quantum : Nat) (input : List Word) : (VirtualOS.create quantum input).Separate := .boot

theorem fitting (separate : os.Separate) (found : os.process? p = some process) : process.layout.Fitting :=
  Allocated.fitting separate process.layout (List.mem_map.mpr ⟨process, List.mem_of_getElem? found, rfl⟩)

theorem region_below (separate : os.Separate) (found : os.process? p = some process) {k : Nat}
    (inside : process.layout.region.Contains k) : k < os.physicalMemory.nextFreeAddress.toNat :=
  Nat.lt_of_lt_of_le inside.2
    (separate.regions process.layout (List.mem_map.mpr ⟨process, List.mem_of_getElem? found, rfl⟩))

theorem regions_disjoint (separate : os.Separate) (found : os.process? p = some process)
    (foundOwner : os.process? q = some owner) (other : q ≠ p) :
    process.layout.region.Disjoint owner.layout.region := by
  have left : os.layouts[p]? = some process.layout := by
    rw [layouts, List.getElem?_map]
    exact congrArg (Option.map _) found
  have right : os.layouts[q]? = some owner.layout := by
    rw [layouts, List.getElem?_map]
    exact congrArg (Option.map _) foundOwner
  obtain ⟨boundLeft, atLeft⟩ := List.getElem?_eq_some_iff.mp left
  obtain ⟨boundRight, atRight⟩ := List.getElem?_eq_some_iff.mp right
  have apart := List.pairwise_iff_getElem.mp (Allocated.disjoint separate)
  rw [← atLeft, ← atRight]
  rcases Nat.lt_or_gt_of_ne other with below | above
  · exact (apart q p boundRight boundLeft below).symm
  · exact apart p q boundLeft boundRight above

/-- The bytes of one process lie in no segment of another one. -/
theorem segment_not_contains (separate : os.Separate) (found : os.process? p = some process)
    (foundOwner : os.process? q = some owner) (other : q ≠ p) {k : Nat}
    (inside : owner.layout.region.Contains k) {segment : Segment} (member : segment ∈ process.layout.segments) :
    ¬ segment.Contains k := by
  have within := (separate.fitting found).segment_within_region member
  have apart := separate.regions_disjoint found foundOwner other
  intro contains
  refine apart.not_contains ⟨within.1.trans contains.1, ?_⟩ inside
  exact Nat.lt_of_lt_of_le contains.2 within.2

theorem congr {after : VirtualOS} (separate : os.Separate) (layouts : after.layouts = os.layouts)
    (size : after.physicalMemory.size = os.physicalMemory.size)
    (nextFree : after.physicalMemory.nextFreeAddress = os.physicalMemory.nextFreeAddress) : after.Separate := by
  unfold Separate
  rw [layouts]
  exact Allocated.mono separate (size.trans (Allocated.size separate)) (by rw [nextFree]) (Or.inl nextFree)

end Separate

end VirtualOS

/-- Whatever has happened, it has happened to process `p` alone, and to new
ones: the control block and the memory of every other process are kept. -/
structure Apart (p : ProcessRef) (before after : VirtualOS) : Prop extends OthersKept p before after where
  separate : after.Separate
  bytes : ∀ q owner, q ≠ p → before.process? q = some owner → ∀ k, owner.layout.region.Contains k →
    after.physicalMemory.memory k = before.physicalMemory.memory k

namespace Apart

variable {p : ProcessRef} {os before middle after : VirtualOS} {process : ProcessControlBlock}

theorem refl (p : ProcessRef) (separate : os.Separate) : Apart p os os := ⟨.refl p os, separate, fun _ _ _ _ _ _ => rfl⟩

theorem trans (first : Apart p before middle) (last : Apart p middle after) : Apart p before after := by
  refine ⟨first.toOthersKept.trans last.toOthersKept, last.separate, fun q owner other found k inside => ?_⟩
  have kept : middle.process? q = some owner :=
    (first.kept q other (VirtualOS.lt_length_of_process? found)).trans found
  exact (last.bytes q owner other kept k inside).trans (first.bytes q owner other found k inside)

/-- Neither the table nor the memory has changed. -/
theorem of_eq (p : ProcessRef) (separate : os.Separate) (table : after.processTable = os.processTable)
    (memory : after.physicalMemory = os.physicalMemory) : Apart p os after := by
  refine ⟨(OthersKept.refl p os).congr table, ?_, fun _ _ _ _ _ _ => by rw [memory]⟩
  exact separate.congr (by rw [VirtualOS.layouts, table]; rfl) (by rw [memory]) (by rw [memory])

theorem of_modifyProcess (separate : os.Separate) (p : ProcessRef) {f : ProcessControlBlock → ProcessControlBlock}
    (id : ∀ process, (f process).id = process.id) (layout : ∀ process, (f process).layout = process.layout) :
    Apart p os (os.modifyProcess p f) := by
  refine ⟨.of_modifyProcess os p id, ?_, fun _ _ _ _ _ _ => rfl⟩
  exact separate.congr (os.processTable.map_modify p f (fun process => process.layout) layout) rfl rfl

theorem of_setState (separate : os.Separate) (p : ProcessRef) (state : ProcessState) :
    Apart p os (os.setState p state) :=
  of_modifyProcess separate p (fun _ => rfl) (fun _ => rfl)

/-- An instruction writes into the segments of its own process only. -/
theorem of_update (separate : os.Separate) (found : os.process? p = some process) {ctx : ExecutionContext}
    (frame : InstructionFrame (os.context process) ctx) : Apart p os (os.update p ctx) := by
  refine ⟨.of_update found frame.id, ?_, fun q owner other foundOwner k inside => ?_⟩
  · exact separate.congr (os.map_update (fun process => process.layout) found frame.layout) frame.size frame.nextFree
  · exact frame.memory (separate.fitting found).toPacked k
      (separate.segment_not_contains found foundOwner other inside (.tail _ (.head _)))
      (separate.segment_not_contains found foundOwner other inside (.tail _ (.tail _ (.head _))))

theorem of_failed (p : ProcessRef) (separate : os.Separate) {physical : PhysicalMemory}
    (leaves : Leaves os.physicalMemory physical) : Apart p os { os with physicalMemory := physical } := by
  refine ⟨(OthersKept.refl p os).congr rfl, Allocated.leaves separate leaves, ?_⟩
  intro q owner other found k inside
  exact leaves.below k (separate.region_below found inside)

theorem of_emplaced (p : ProcessRef) (separate : os.Separate) {program : AssembledProgram} (fits : program.Fits)
    {layout : MemoryRegionLayout} {physical : PhysicalMemory}
    (ran : load os.physicalMemory program = (.ok layout, physical)) : Apart p os (os.emplaced physical layout) := by
  have leaves := load_leaves (Allocated.size separate) fits
  rw [ran] at leaves
  refine ⟨.of_emplaced p os physical layout, ?_, fun q owner other found k inside => ?_⟩
  · rcases load_cases (Allocated.size separate) program
      with ⟨loads, after, loaded, size, next⟩ | ⟨_, e, after, failed, _⟩
    · rw [ran] at loaded
      cases loaded
      refine (Allocated.loaded separate loads fits size next).perm ?_
      rw [VirtualOS.layouts, VirtualOS.emplaced, ProcessTable.emplace, List.map_append]
      exact List.perm_append_singleton _ _
    · rw [ran] at failed
      cases failed
  · exact leaves.below k (separate.region_below found inside)

theorem of_publish (p : ProcessRef) (separate : os.Separate) {child : ProcessRef}
    (found : os.process? child = some process) (ready : process.state = .Ready) :
    Apart p os (os.setState child .Ready) := by
  refine ⟨.of_publish p os found ready, ?_, fun _ _ _ _ _ _ => rfl⟩
  exact (of_setState separate child .Ready).separate

theorem of_published (p : ProcessRef) (separate : os.Separate) {program : AssembledProgram} (fits : program.Fits)
    {layout : MemoryRegionLayout} {physical : PhysicalMemory}
    (ran : load os.physicalMemory program = (.ok layout, physical)) : Apart p os (os.published physical layout) := by
  have emplaced := of_emplaced p separate fits ran
  have published := of_publish p emplaced.separate (os.process?_emplaced_new physical layout) rfl
  exact (emplaced.trans published).trans (.of_eq p published.separate rfl rfl)

theorem of_loadProgramFromSource (p : ProcessRef) (separate : os.Separate) {source : Text}
    (fits : VirtualOS.SourceFits source) : Apart p os (os.loadProgramFromSource source).2 := by
  rcases os.loadProgramFromSource_cases source with
    ⟨physical, left, same⟩ | ⟨program, layout, physical, accepted, ran, published⟩
  · rw [same]
    exact .of_failed p separate (left.leaves (Allocated.size separate) fits)
  · rw [published]
    exact .of_published p separate (fits program accepted) ran

end Apart

/-- A program that the next instruction loads fits its region. -/
def ExecutionContext.LoadFits (files : FileSystem) (ctx : ExecutionContext) : Prop :=
  ∀ path ∈ ctx.loadPath?, ∀ source ∈ files path, VirtualOS.SourceFits source

instance (files : FileSystem) (ctx : ExecutionContext) : Decidable (ctx.LoadFits files) :=
  inferInstanceAs (Decidable (∀ path ∈ ctx.loadPath?, ∀ source ∈ files path, _))

variable {files : FileSystem} {os : VirtualOS} {p : ProcessRef} {process : ProcessControlBlock}

theorem Execution.apart {outcome : Except Exception ExecutionResult × VirtualOS}
    (execution : Execution files os p process outcome) (separate : os.Separate) (found : os.process? p = some process)
    (fits : (os.context process).LoadFits files) : Apart p os outcome.2 := by
  have updated := Apart.of_update separate found (.refl (os.context process))
  cases execution with
  | threw began fails =>
    have frame := beginInstruction_frame (os.context process)
    rw [began] at frame
    exact .of_update separate found frame
  | finished began =>
    have frame := beginInstruction_frame (os.context process)
    rw [began] at frame
    exact .of_update separate found frame
  | @loadFailed path e physical load left failed =>
    have leaves := left.leaves (Allocated.size separate) (fits path load)
    exact updated.trans (.of_failed p updated.separate leaves)
  | @loaded path source program layout physical completes load opened accepted ran =>
    have programFits := fits path load source opened program accepted
    have published := updated.trans (.of_published p updated.separate programFits ran)
    have current := published_process? found physical layout
    dsimp only
    rw [VirtualOS.finishLoad_eq current]
    exact published.trans (.of_update published.separate current (finishCall_frame (some .Load) _))

namespace VirtualOS

/-- Whether every instruction that a call of `step` begins, on process `p`,
finds a context that is `good`. -/
def eachInstruction (good : ExecutionContext → Bool) (files : FileSystem) (id : ProcessId) (p : ProcessRef) :
    Nat → VirtualOS → Bool
  | 0, _ => true
  | steps + 1, os =>
    (os.process? p).all (fun process => good (os.context process)) &&
      match os.stepProcess files id with
      | (.error _, _) => true
      | (.ok result, after) => result == .Halt || result == .Error || eachInstruction good files id p steps after

theorem stepProcess_apart {id : ProcessId} (separate : os.Separate) (known : os.processTable.find id = some p)
    (found : os.process? p = some process) (fits : (os.context process).LoadFits files) :
    Apart p os (os.stepProcess files id).2 := by
  have running : (os.setState p .Running).process? p = some (process.setState .Running) := by
    rw [process?_setState_same, found]
    rfl
  rw [stepProcess_of_find known found]
  have set := Apart.of_setState separate p .Running
  exact set.trans ((executeInstruction_execution files _ p _).apart set.separate running fits)

/-- A call of `step` touches the process that it steps. -/
theorem stepLoop_apart {good : ExecutionContext → Bool} {id : ProcessId} {steps : Nat} (last : ExecutionResult)
    (separate : os.Separate) (known : os.processTable.find id = some p)
    (fits : ∀ ctx, good ctx = true → ctx.LoadFits files)
    (each : eachInstruction good files id p steps os = true) : Apart p os (stepLoop files id steps last os).2 := by
  induction steps generalizing last os with
  | zero => exact .refl p separate
  | succ steps ih =>
    obtain ⟨process, found⟩ := process?_of_find known
    rw [eachInstruction, found, Option.all_some, Bool.and_eq_true] at each
    obtain ⟨here, later⟩ := each
    have stepped := stepProcess_apart separate known found (fits _ here)
    unfold stepLoop
    revert stepped later
    rcases os.stepProcess files id with ⟨e | result, after⟩
    · exact fun _ stepped => stepped
    · intro later stepped
      dsimp only
      split
      · exact stepped
      · rename_i goes
        have rest : eachInstruction good files id p steps after = true := by
          simpa [not_or.mp goes] using later
        exact stepped.trans (ih result stepped.separate (ProcessTable.find_of_ids stepped.ids known) rest)

/-- The next instruction hands no path to the load callback. -/
def loadless (ctx : ExecutionContext) : Bool := ctx.loadPath?.isNone

/-- A call of `step` that executes no load system call adds no process. -/
theorem stepLoop_length {id : ProcessId} {steps : Nat} (last : ExecutionResult)
    (known : os.processTable.find id = some p) (each : eachInstruction loadless files id p steps os = true) :
    (stepLoop files id steps last os).2.processTable.processes.length = os.processTable.processes.length := by
  induction steps generalizing last os with
  | zero => rfl
  | succ steps ih =>
    obtain ⟨process, found⟩ := process?_of_find known
    rw [eachInstruction, found, Option.all_some, Bool.and_eq_true] at each
    obtain ⟨here, later⟩ := each
    have others := stepProcess_others files known
    have length : (os.stepProcess files id).2.processTable.processes.length = os.processTable.processes.length := by
      have noLoad : ((os.setState p .Running).context (process.setState .Running)).loadPath? = none :=
        Option.isNone_iff_eq_none.mp here
      rw [stepProcess_of_find known found]
      have execution := executeInstruction_execution files (os.setState p .Running) p (process.setState .Running)
      generalize (os.setState p .Running).executeInstruction files p (process.setState .Running) = outcome at execution
      cases execution with
      | threw began fails => rw [length_update, length_setState]
      | finished began => rw [length_update, length_setState]
      | loadFailed load left failed =>
        rw [noLoad] at load
        cases load
      | loaded completes load opened accepted ran =>
        rw [noLoad] at load
        cases load
    unfold stepLoop
    revert later others length
    rcases os.stepProcess files id with ⟨e | result, after⟩
    · exact fun _ _ length => length
    · intro later others length
      dsimp only
      split
      · exact length
      · rename_i goes
        have rest : eachInstruction loadless files id p steps after = true := by
          simpa [not_or.mp goes] using later
        exact (ih result (ProcessTable.find_of_ids others.ids known) rest).trans length

end VirtualOS

/-- A step of a core touches the process that the core holds or takes. -/
theorem CoreMove.apart {stopRequested : Bool} {after : VirtualOS} {state next : CoreState}
    (move : CoreMove files stopRequested os state next after) (separate : os.Separate)
    (own : ∀ q, state.held = some q ∨ next.held = some q → q = p)
    (fits : ∀ process, state = .holding p → os.process? p = some process →
      process.context.halted = false ∧ process.state ≠ .Halted → (os.context process).LoadFits files)
    (ready : ∀ q child, state = .loading q child .emplaced →
      ∃ process, os.process? child = some process ∧ process.state = .Ready) : Apart p os after := by
  have instruction : ∀ {q process ctx}, state = .holding q → os.process? q = some process →
      InstructionFrame (os.context process) ctx → Apart p os (os.update q ctx) := by
    intro q process ctx holding found frame
    obtain rfl := own q (Or.inl (by rw [holding]; rfl))
    exact .of_update separate found frame
  cases move with
  | leave | discard | expire | keep | pass => exact .refl p separate
  | starve | look | drop | announce => exact .of_eq p separate rfl rfl
  | @acquire q process scheduler found alive =>
    obtain rfl := own q (Or.inr rfl)
    have taken : Apart q os (os.modifyProcess q (fun process =>
        (process.setState .Running).resetTimeSlice os.scheduler.quantum)) :=
      .of_modifyProcess separate q (fun _ => rfl) (fun _ => rfl)
    exact taken.trans (.of_eq q taken.separate rfl rfl)
  | @throw q process e ctx found alive began =>
    have frame := beginInstruction_frame (os.context process)
    rw [began] at frame
    exact instruction rfl found frame
  | @finish q process result ctx found alive began =>
    have frame := beginInstruction_frame (os.context process)
    rw [began] at frame
    exact instruction rfl found frame
  | @loadFails q process path found alive load physical left =>
    have updated := instruction rfl found (.refl (os.context process))
    obtain rfl := own q (Or.inl rfl)
    have leaves := left.leaves (Allocated.size separate) (fits process rfl found alive path load)
    exact updated.trans (.of_failed q updated.separate leaves)
  | @emplace q process path source program layout physical found alive load opened accepted loaded =>
    have updated := instruction rfl found (.refl (os.context process))
    obtain rfl := own q (Or.inl rfl)
    have programFits := fits process rfl found alive path load source opened program accepted
    exact updated.trans (.of_emplaced q updated.separate programFits loaded)
  | @publish q child =>
    obtain ⟨process, found, isReady⟩ := ready q child rfl
    exact .of_publish p separate found isReady
  | @finishLoad q child =>
    obtain rfl := own q (Or.inl rfl)
    have announced : Apart q os os.notifyProcessReady := .of_eq q separate rfl rfl
    cases found : os.process? q with
    | none =>
      have missing : os.notifyProcessReady.process? q = none := found
      rw [VirtualOS.finishLoad, missing]
      exact announced
    | some process =>
      have current : os.notifyProcessReady.process? q = some process := found
      rw [VirtualOS.finishLoad_eq current]
      exact announced.trans (.of_update announced.separate current (finishCall_frame (some .Load) _))
  | @halt q process result found ended =>
    obtain rfl := own q (Or.inl rfl)
    exact .of_setState separate q .Halted
  | @fail q process found alive =>
    obtain rfl := own q (Or.inl rfl)
    exact .of_modifyProcess separate q (fun _ => rfl) (fun _ => rfl)
  | @yield q process result found alive continues =>
    obtain rfl := own q (Or.inl rfl)
    exact .of_modifyProcess separate q (fun _ => rfl) (fun _ => rfl)
  | @preempt q process found running scheduler =>
    obtain rfl := own q (Or.inl rfl)
    have given := Apart.of_setState separate q .Ready
    exact given.trans (.of_eq q given.separate rfl rfl)
  | @giveBack q process found alive =>
    obtain rfl := own q (Or.inl rfl)
    exact .of_setState separate q .Ready

/-- A core that works on a process does not turn to another one in the same step. -/
theorem CoreMove.held_eq {stopRequested : Bool} {after : VirtualOS} {state next : CoreState}
    (move : CoreMove files stopRequested os state next after) {q r : ProcessRef} (before : state.held = some q)
    (held : next.held = some r) : r = q := by
  cases move with
  | acquire => cases before
  | leave | starve | look | throw | loadFails | preempt | pass | giveBack | drop | announce => cases held
  | discard | finish | emplace | publish | finishLoad | halt | fail | yield | expire | keep =>
    exact Option.some.inj (held.symm.trans before)

/-- A step of a core that neither holds nor takes process `q` leaves it alone. -/
theorem CoreMove.apart_other {stopRequested : Bool} {after : VirtualOS} {state next : CoreState} {q : ProcessRef}
    (move : CoreMove files stopRequested os state next after) (separate : os.Separate)
    (notBefore : state.held ≠ some q) (notAfter : next.held ≠ some q)
    (fits : ∀ p process, state = .holding p → os.process? p = some process →
      process.context.halted = false ∧ process.state ≠ .Halted → (os.context process).LoadFits files)
    (ready : ∀ p child, state = .loading p child .emplaced →
      ∃ process, os.process? child = some process ∧ process.state = .Ready) : ∃ p, q ≠ p ∧ Apart p os after := by
  cases before : state.held with
  | some p =>
    refine ⟨p, fun same => notBefore (by rw [before, same]), move.apart separate ?_ (fits p) ready⟩
    rintro r (held | held)
    · exact Option.some.inj (held.symm.trans before)
    · exact move.held_eq before held
  | none =>
    cases taken : next.held with
    | some p =>
      refine ⟨p, fun same => notAfter (by rw [taken, same]), move.apart separate ?_ (fits p) ready⟩
      rintro r (held | held)
      · rw [before] at held
        cases held
      · exact Option.some.inj (held.symm.trans taken)
    | none =>
      refine ⟨q + 1, Nat.ne_of_lt (Nat.lt_succ_self q), move.apart separate ?_ (fits _) ready⟩
      rintro r (held | held)
      · rw [before] at held
        cases held
      · rw [taken] at held
        cases held

theorem CoreMove.exists_apart {stopRequested : Bool} {after : VirtualOS} {state next : CoreState}
    (move : CoreMove files stopRequested os state next after) (separate : os.Separate)
    (fits : ∀ p process, state = .holding p → os.process? p = some process →
      process.context.halted = false ∧ process.state ≠ .Halted → (os.context process).LoadFits files)
    (ready : ∀ p child, state = .loading p child .emplaced →
      ∃ process, os.process? child = some process ∧ process.state = .Ready) : ∃ p, Apart p os after := by
  have fresh : ∀ a b : Option Nat, ∃ q, a ≠ some q ∧ b ≠ some q := by
    intro a b
    have differs : ∀ x : Option Nat, ∀ n, x ≠ some (x.getD 0 + n + 1) := by
      rintro (_ | x) n same
      · cases same
      · have equal : x = x + n + 1 := Option.some.inj same
        omega
    exact ⟨a.getD 0 + b.getD 0 + 1, differs a _, Nat.add_comm (b.getD 0) (a.getD 0) ▸ differs b _⟩
  obtain ⟨q, notBefore, notAfter⟩ := fresh state.held next.held
  obtain ⟨p, -, apart⟩ := move.apart_other separate notBefore notAfter fits ready
  exact ⟨p, apart⟩

end VirtualMachine
