import VirtualMachine.Cpu.SameView
import VirtualMachine.Os.StepCalls

namespace VirtualMachine

open ProgramLoader

namespace ExecutionContext

/-- One more instruction of a process that has come this far. -/
def aloneStep : ExecutionResult × ExecutionContext → Option (ExecutionResult × ExecutionContext)
  | (last, ctx) =>
    if last.Ends then none
    else
      match beginInstruction ctx with
      | (.ok (.finished result), after) => some (result, after)
      | _ => none

/-- The process after `n` instructions with nobody else about, and the result of
the last one; none if it has ended before, or if an instruction throws. -/
def alone (ctx : ExecutionContext) : Nat → Option (ExecutionResult × ExecutionContext)
  | 0 => some (.Continue, ctx)
  | n + 1 => (ctx.alone n).bind aloneStep

/-- What process `id` has printed. -/
def printed (output : List (ProcessId × Word)) (id : ProcessId) : List Word :=
  (output.filter (fun line => line.1 == id)).map (fun line => line.2)

/-- PC is in the code, and the next instruction is no scan and no load system call. -/
def NextContained (ctx : ExecutionContext) : Prop :=
  ctx.registers.pc.toNat * 4 + 4 ≤ ctx.process.layout.codeSize ∧ ¬ ctx.NextCalls .Scan ∧ ¬ ctx.NextCalls .Load

instance (ctx : ExecutionContext) : Decidable ctx.NextContained := inferInstanceAs (Decidable (_ ∧ _ ∧ _))

/-- The process, executed alone, stays in its code and makes no scan and no load system call. -/
def SelfContained (ctx : ExecutionContext) : Prop :=
  ∀ n last reached, ctx.alone n = some (last, reached) → ¬ last.Ends → reached.NextContained

theorem printed_append (output : List (ProcessId × Word)) (words : List Word) (id owner : ProcessId) :
    printed (output ++ words.map (fun value => (owner, value))) id =
      printed output id ++ if owner = id then words else [] := by
  have mapped : (words.map (fun value => (owner, value))).filter (fun line => line.1 == id) =
      if owner = id then words.map (fun value => (owner, value)) else [] := by
    by_cases same : owner = id
    · simp [same]
    · simp [same]
  rw [printed, printed, List.filter_append, List.map_append, mapped]
  split
  · rw [List.map_map]
    exact congrArg _ (List.map_id words)
  · rfl

theorem aloneStep_finished {ctx after : ExecutionContext} {last result : ExecutionResult} (alive : ¬ last.Ends)
    (began : beginInstruction ctx = (.ok (.finished result), after)) :
    aloneStep (last, ctx) = some (result, after) := by
  rw [aloneStep, if_neg alive, began]

/-- There is nothing after the end. -/
theorem alone_ended {ctx reached : ExecutionContext} {n : Nat} {last : ExecutionResult}
    (ran : ctx.alone n = some (last, reached)) (ends : last.Ends) (k : Nat) : ctx.alone (n + k + 1) = none := by
  induction k with
  | zero => rw [Nat.add_zero, alone, ran, Option.bind_some, aloneStep, if_pos ends]
  | succ k ih => rw [← Nat.add_assoc, alone, ih, Option.bind_none]

/-- A process executed alone ends in one way at most. -/
theorem alone_unique {ctx a b : ExecutionContext} {n m : Nat} {last other : ExecutionResult}
    (first : ctx.alone n = some (last, a)) (ends : last.Ends) (second : ctx.alone m = some (other, b))
    (endsToo : other.Ends) : last = other ∧ a = b := by
  have same : n = m := by
    rcases Nat.lt_trichotomy n m with below | equal | above
    · obtain ⟨k, rfl⟩ := Nat.exists_eq_add_of_lt below
      exact nomatch (alone_ended first ends k).symm.trans second
    · exact equal
    · obtain ⟨k, rfl⟩ := Nat.exists_eq_add_of_lt above
      exact nomatch (alone_ended second endsToo k).symm.trans first
  subst same
  exact Prod.mk.inj (Option.some.inj (first.symm.trans second))

/-- To look at the instructions up to the end is enough. -/
theorem SelfContained.of_ends {ctx : ExecutionContext} {n : Nat} (ends : ∃ reached ∈ ctx.alone n, reached.1.Ends)
    (each : ∀ m < n, ∀ reached ∈ ctx.alone m, reached.2.NextContained) : ctx.SelfContained := by
  intro m last reached ran alive
  obtain ⟨⟨final, ended⟩, atEnd, ends⟩ := ends
  rcases Nat.lt_trichotomy m n with below | rfl | above
  · exact each m below _ ran
  · exact absurd ((Prod.mk.inj (Option.some.inj (ran.symm.trans atEnd))).1 ▸ ends) alive
  · obtain ⟨k, rfl⟩ := Nat.exists_eq_add_of_lt above
    exact nomatch (alone_ended atEnd ends k).symm.trans ran

/-- An instruction of the registry or a call other than load does not reach the load callback. -/
theorem loadPath?_of_not_calls {ctx : ExecutionContext} (noLoad : ¬ ctx.NextCalls .Load) : ctx.loadPath? = none := by
  rw [loadPath?]
  cases fetched : ctx.fetch? with
  | none => rfl
  | some instruction =>
    rw [Option.bind_some, if_neg]
    exact fun load => noLoad ⟨instruction, fetched, load⟩

end ExecutionContext

namespace VirtualOS

/-- A machine into which these sources have been loaded, one after the other. -/
def loadAll (os : VirtualOS) (sources : List Text) : VirtualOS :=
  sources.foldl (fun os source => (os.loadProgramFromSource source).2) os

/-- Two machines that differ in their quantum, their input and their scheduler at most. -/
structure SameImage (a b : VirtualOS) : Prop where
  physical : a.physicalMemory = b.physicalMemory
  nextId : a.processTable.nextProcessId = b.processTable.nextProcessId
  processes : a.processTable.processes.map (fun process => process.resetTimeSlice 0) =
    b.processTable.processes.map (fun process => process.resetTimeSlice 0)

/-- The write of `Ready` that publishes a new process changes nothing. -/
theorem processTable_published (os : VirtualOS) (physical : PhysicalMemory) (layout : MemoryRegionLayout) :
    (os.published physical layout).processTable = (os.emplaced physical layout).processTable := by
  have ready : (os.emplaced physical layout).setState os.processTable.processes.length .Ready =
      os.emplaced physical layout := setState_eq_self (os.process?_emplaced_new physical layout) rfl
  rw [published, ready]
  rfl

theorem SameImage.emplaced {a b : VirtualOS} (same : SameImage a b) (physical : PhysicalMemory)
    (layout : MemoryRegionLayout) : SameImage (a.published physical layout) (b.published physical layout) := by
  refine ⟨rfl, ?_, ?_⟩
  · rw [processTable_published, processTable_published]
    exact congrArg (· + 1) same.nextId
  · rw [processTable_published, processTable_published]
    simp only [VirtualOS.emplaced, ProcessTable.emplace, List.map_append, same.processes, same.nextId]
    rfl

/-- What a load does depends on neither quantum nor input. -/
theorem SameImage.loadProgramFromSource {a b : VirtualOS} (same : SameImage a b) (source : Text) :
    SameImage (a.loadProgramFromSource source).2 (b.loadProgramFromSource source).2 := by
  unfold VirtualOS.loadProgramFromSource emplaceProgram
  cases assemble source with
  | error e => exact same
  | ok program =>
    show SameImage (finishEmplace (a.emplaceLoaded (load a.physicalMemory program))).2
      (finishEmplace (b.emplaceLoaded (load b.physicalMemory program))).2
    rw [same.physical]
    rcases load b.physicalMemory program with ⟨e | layout, physical⟩
    · exact ⟨rfl, same.nextId, same.processes⟩
    · exact same.emplaced physical layout

theorem SameImage.loadAll {a b : VirtualOS} (same : SameImage a b) (sources : List Text) :
    SameImage (a.loadAll sources) (b.loadAll sources) := by
  induction sources generalizing a b with
  | nil => exact same
  | cons source rest ih => exact ih (same.loadProgramFromSource source)

theorem SameImage.sameView {a b : VirtualOS} (same : SameImage a b) {p : ProcessRef} {process : ProcessControlBlock}
    (found : a.process? p = some process) :
    ∃ other, b.process? p = some other ∧ SameView (a.context process) (b.context other) := by
  have entry := congrArg (fun processes : List ProcessControlBlock => processes[p]?) same.processes
  simp only [List.getElem?_map] at entry
  have here : a.processTable.processes[p]? = some process := found
  rw [here, Option.map_some] at entry
  obtain ⟨other, foundOther, equal⟩ := Option.map_eq_some_iff.mp entry.symm
  refine ⟨other, foundOther, ?_⟩
  have registers := congrArg (fun process => process.context.registers) equal
  have id := congrArg ProcessControlBlock.id equal
  have layout := congrArg ProcessControlBlock.layout equal
  exact ⟨id.symm, layout.symm, registers.symm, by rw [context, context, same.physical],
    fun k _ => by rw [context, context, same.physical]⟩

/-- A machine into which programs have been loaded, before anything is executed. -/
structure Fresh (os : VirtualOS) : Prop where
  separate : os.Separate
  below : ∀ process ∈ os.processTable.processes, process.id < os.processTable.nextProcessId
  distinct : (os.processTable.processes.map (fun process => process.id)).Nodup
  ready : ∀ process ∈ os.processTable.processes, process.state = .Ready ∧ process.context.halted = false
  output : os.output = []

theorem Fresh.create (quantum : Nat) (input : List Word) : (VirtualOS.create quantum input).Fresh where
  separate := .create quantum input
  below _ member := nomatch member
  distinct := .nil
  ready _ member := nomatch member
  output := rfl

theorem Fresh.loadProgramFromSource {os : VirtualOS} (fresh : os.Fresh) {source : Text} (fits : SourceFits source) :
    (os.loadProgramFromSource source).2.Fresh := by
  have separate := (Apart.of_loadProgramFromSource 0 fresh.separate fits).separate
  rcases os.loadProgramFromSource_cases source with
    ⟨physical, _, same⟩ | ⟨program, layout, physical, _, _, published⟩
  · rw [same] at separate ⊢
    exact ⟨separate, fresh.below, fresh.distinct, fresh.ready, fresh.output⟩
  · rw [published] at separate ⊢
    have table := os.processTable_published physical layout
    have processes : (os.published physical layout).processTable.processes =
        os.processTable.processes ++ [os.newProcess layout os.processTable.nextProcessId] := by
      rw [table]
      rfl
    have next : (os.published physical layout).processTable.nextProcessId = os.processTable.nextProcessId + 1 := by
      rw [table]
      rfl
    refine ⟨separate, fun process member => ?_, ?_, fun process member => ?_, fresh.output⟩
    · rw [processes, List.mem_append, List.mem_singleton] at member
      rw [next]
      rcases member with old | rfl
      · exact Nat.lt_succ_of_lt (fresh.below process old)
      · exact Nat.lt_succ_self _
    · rw [processes, List.map_append, List.nodup_append]
      refine ⟨fresh.distinct, List.nodup_singleton _, ?_⟩
      rintro id old other new rfl
      obtain ⟨process, member, rfl⟩ := List.mem_map.mp old
      exact absurd (List.mem_singleton.mp new) (Nat.ne_of_lt (fresh.below process member))
    · rw [processes, List.mem_append, List.mem_singleton] at member
      rcases member with old | rfl
      · exact fresh.ready process old
      · exact ⟨rfl, rfl⟩

theorem Fresh.loadAll {os : VirtualOS} (fresh : os.Fresh) {sources : List Text}
    (fits : ∀ source ∈ sources, SourceFits source) : (os.loadAll sources).Fresh := by
  induction sources generalizing os with
  | nil => exact fresh
  | cons source rest ih =>
    exact ih (fresh.loadProgramFromSource (fits source (.head rest))) (fun other member => fits other (.tail _ member))

/-- The machine on which the processes are executed alone. -/
def reference (sources : List Text) : VirtualOS := (create kDefaultTimeSlice []).loadAll sources

/-- What the process at position `p` starts from, once these sources have been loaded. -/
def initial? (sources : List Text) (p : ProcessRef) : Option ExecutionContext :=
  ((reference sources).process? p).map (reference sources).context

theorem initial?_eq_some {sources : List Text} {p : ProcessRef} {initial : ExecutionContext} :
    initial? sources p = some initial ↔
      ∃ process, (reference sources).process? p = some process ∧ (reference sources).context process = initial :=
  Option.map_eq_some_iff

end VirtualOS

end VirtualMachine
