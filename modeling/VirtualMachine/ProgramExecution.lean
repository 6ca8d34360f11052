import VirtualMachine.Assembler.Meaning
import VirtualMachine.Os.FreshProcess
import VirtualMachine.ScheduleIndependence

namespace VirtualMachine

open StateTransition ExecutionContext

/-- The system call that a command makes. -/
def Command.syscall? : Command → Option SyscallId
  | .call id _ => id
  | _ => none

/-- Where the process calls the system, its command is that system call. -/
theorem ExecutionContext.Holds.syscall?_of_nextCalls {code : List Word} {ctx : ExecutionContext} {data : List Byte}
    {stack : List Word} {word : Word} {id : SyscallId} (holds : ctx.Holds code data stack)
    (here : code[ctx.registers.pc.toNat]? = some word) (calls : ctx.NextCalls id) :
    (Command.decode word).syscall? = some id := by
  obtain ⟨instruction, fetched, isCall, isId⟩ := calls
  cases (holds.fetch? here).symm.trans fetched
  rw [Command.decode, Command.ofInstruction, isCall, Opcode.ofByte?_toByte, ← isId]
  rfl

namespace Source

namespace Meaning

def start (meaning : Meaning) : ProcessModel := .start meaning.data []

/-- The program never runs off its end, reads no number and loads no other program. -/
structure SelfContained (meaning : Meaning) : Prop where
  stays : ProcessModel.StaysInCode meaning.commands meaning.start
  quiet : ∀ command ∈ meaning.commands, command.syscall? ≠ some .Scan ∧ command.syscall? ≠ some .Load

/-- The program ends after this many commands. -/
def EndsAfter (meaning : Meaning) (n : Nat) : Prop :=
  ∃ last final, after (ProcessModel.advance meaning.commands) (.Continue, meaning.start) n = some (last, final) ∧
    last.Ends

/-- What there is to check of a program by running its commands to their end. -/
structure Checked (meaning : Meaning) (n : Nat) : Prop where
  ends : ∃ state ∈ after (ProcessModel.advance meaning.commands) (.Continue, meaning.start) n, state.1.Ends
  stays : ∀ k < n, ∀ state ∈ after (ProcessModel.advance meaning.commands) (.Continue, meaning.start) k,
    state.2.pc.toNat < meaning.commands.length
  quiet : ∀ command ∈ meaning.commands, command.syscall? ≠ some .Scan ∧ command.syscall? ≠ some .Load

instance (meaning : Meaning) (n : Nat) : Decidable (meaning.Checked n) :=
  decidable_of_iff
    ((∃ state ∈ after (ProcessModel.advance meaning.commands) (.Continue, meaning.start) n, state.1.Ends) ∧
      (∀ k < n, ∀ state ∈ after (ProcessModel.advance meaning.commands) (.Continue, meaning.start) k,
        state.2.pc.toNat < meaning.commands.length) ∧
      ∀ command ∈ meaning.commands, command.syscall? ≠ some .Scan ∧ command.syscall? ≠ some .Load)
    ⟨fun ⟨ends, stays, quiet⟩ => ⟨ends, stays, quiet⟩, fun ⟨ends, stays, quiet⟩ => ⟨ends, stays, quiet⟩⟩

/-- Running the commands to their end shows that nothing goes wrong on the way, as a
run is determined by its start. -/
theorem Checked.selfContained {meaning : Meaning} {n : Nat} (checked : meaning.Checked n) : meaning.SelfContained :=
  ⟨.of_ends checked.ends checked.stays, checked.quiet⟩

end Meaning

/-- The image of a program is what this says. -/
structure Meaning.Of (meaning : Meaning) (program : AssembledProgram) : Prop where
  commands : Command.decodeAll program.code = meaning.commands
  data : program.data = meaning.data

/-- The source is accepted, its image fits the region of a process, and nothing
that it says is damaged on the way there. -/
def Runnable (source : Text) (meaning : Meaning) : Prop :=
  ∃ statements program, Source.read source = some statements ∧ meaning? statements = some meaning ∧ Intact statements ∧
    VirtualOS.program? source = some program ∧ program.Fits

instance (source : Text) (meaning : Meaning) : Decidable (Runnable source meaning) :=
  decidable_of_iff
    ((∃ statements ∈ Source.read source, meaning? statements = some meaning ∧ Intact statements) ∧
      ∃ program ∈ VirtualOS.program? source, program.Fits)
    ⟨fun ⟨⟨statements, read, means, intact⟩, program, accepted, fits⟩ =>
        ⟨statements, program, read, means, intact, accepted, fits⟩,
      fun ⟨statements, program, read, means, intact, accepted, fits⟩ =>
        ⟨⟨statements, read, means, intact⟩, program, accepted, fits⟩⟩

/-- A runnable source has a program that fits a region and whose image means what
the source says. -/
theorem Runnable.program {source : Text} {meaning : Meaning} (runnable : Runnable source meaning) :
    ∃ program, (VirtualOS.program? source = some program ∧ program.Fits) ∧ meaning.Of program := by
  obtain ⟨statements, program, read, means, intact, accepted, fits⟩ := runnable
  obtain ⟨commands, said, rfl⟩ := Option.map_eq_some_iff.mp means
  have assembled := VirtualOS.assemble_of_program? accepted
  exact ⟨program, ⟨accepted, fits⟩, decodeAll_code assembled read intact.labels intact.instructions said,
    data_eq_dataBytes assembled read intact.data⟩

/-- The same for a list of sources, one for each process. -/
theorem Runnable.programs {sources : List Text} {meanings : List Meaning}
    (runnable : List.Forall₂ Runnable sources meanings) :
    ∃ programs, VirtualOS.Loaded.Accepts sources programs ∧ List.Forall₂ Meaning.Of meanings programs := by
  induction runnable with
  | nil => exact ⟨[], .nil, .nil⟩
  | cons first _ ih =>
    obtain ⟨program, accepted, means⟩ := first.program
    obtain ⟨programs, accepts, others⟩ := ih
    exact ⟨program :: programs, .cons accepted accepts, .cons means others⟩

end Source

open Source

/-- The process has these registers, and in memory these data and this stack. -/
structure ExecutionContext.Shows (ctx : ExecutionContext) (m : ProcessModel) : Prop where
  holds : ∃ code, ctx.Holds code m.data m.stack
  gpr : ctx.registers.gpr = m.gpr
  pc : ctx.registers.pc = m.pc
  flags : ctx.registers.flags = m.flags

/-- To see the same is symmetric. -/
theorem SameView.symm {a b : ExecutionContext} (same : SameView a b) : SameView b a :=
  ⟨same.id.symm, same.layout.symm, same.registers.symm, same.size.symm,
    fun k inside => (same.bytes k (same.layout ▸ inside)).symm⟩

/-- A process that sees the same as one that realizes a model shows that model. -/
theorem Realizes.shows {code : List Word} {m : ProcessModel} {a b : ExecutionContext} (realizes : Realizes code m a)
    (same : SameView a b) (fitting : a.process.layout.Fitting) : b.Shows m := by
  cases realizes with
  | intro holds => exact ⟨⟨code, holds.of_sameView same fitting⟩, by rw [← same.registers]; rfl,
      by rw [← same.registers]; rfl, by rw [← same.registers]; rfl⟩

section Initial

variable {program : AssembledProgram} {meaning : Meaning} {initial reached : ExecutionContext} {last : ExecutionResult}
  {n : Nat}

/-- What a process comes to alone, its program comes to. -/
theorem alone_means (means : meaning.Of program) (realizes : Realizes program.code (.start program.data []) initial)
    (stays : ProcessModel.StaysInCode meaning.commands meaning.start) (ran : initial.alone n = some (last, reached)) :
    ∃ m, after (ProcessModel.advance meaning.commands) (.Continue, meaning.start) n = some (last, m) ∧
      Realizes program.code m reached := by
  have same : ProcessModel.start program.data [] = meaning.start := by rw [Meaning.start, means.data]
  rw [same] at realizes
  rw [← means.commands] at stays ⊢
  exact realizes.of_alone stays ran

/-- What is asked of the commands of a source is what the machine needs of the
process: it stays in its code, reads nothing and loads nothing. -/
theorem selfContained_of_meaning (means : meaning.Of program)
    (realizes : Realizes program.code (.start program.data []) initial) (contained : meaning.SelfContained) :
    initial.SelfContained := by
  intro n last reached ran alive
  obtain ⟨m, here, realizes⟩ := alone_means means realizes contained.stays ran
  have inside := contained.stays n last m here alive
  rw [← means.commands, Command.decodeAll, List.length_map, ← realizes.pc] at inside
  cases realizes with
  | intro holds =>
    have word : program.code[reached.registers.pc.toNat]? = some program.code[reached.registers.pc.toNat] :=
      List.getElem?_eq_getElem inside
    have member : Command.decode program.code[reached.registers.pc.toNat] ∈ meaning.commands := by
      rw [← means.commands]
      exact List.mem_map_of_mem (List.getElem_mem inside)
    obtain ⟨noScan, noLoad⟩ := contained.quiet _ member
    refine ⟨?_, fun scan => noScan (holds.syscall?_of_nextCalls word scan),
      fun load => noLoad (holds.syscall?_of_nextCalls word load)⟩
    rw [holds.codeSize]
    omega

end Initial

section Initials

variable {sources : List Text} {meanings : List Meaning}

/-- What each process starts from, against its source. -/
theorem initial_means (runnable : List.Forall₂ Runnable sources meanings)
    (room : sources.length ≤ VirtualOS.processCapacity)
    {p : ProcessRef} {meaning : Meaning} (here : meanings[p]? = some meaning) :
    ∃ program initial, meaning.Of program ∧ VirtualOS.initial? sources p = some initial ∧
      Realizes program.code (.start program.data []) initial := by
  obtain ⟨programs, accepts, means⟩ := Runnable.programs runnable
  have count : programs.length ≤ VirtualOS.processCapacity := accepts.length_eq ▸ room
  obtain ⟨bound, rfl⟩ := List.getElem?_eq_some_iff.mp here
  have bound' : p < programs.length := means.length_eq ▸ bound
  obtain ⟨initial, start, -, realizes⟩ := VirtualOS.initial_realizes accepts count (List.getElem?_eq_getElem bound')
  exact ⟨programs[p], initial, means.get bound bound', start, realizes⟩

/-- There is a source for each process. -/
theorem exists_meaning (runnable : List.Forall₂ Runnable sources meanings)
    (room : sources.length ≤ VirtualOS.processCapacity)
    {p : ProcessRef} {initial : ExecutionContext} (start : VirtualOS.initial? sources p = some initial) :
    ∃ meaning, meanings[p]? = some meaning := by
  obtain ⟨programs, accepts, means⟩ := Runnable.programs runnable
  obtain ⟨program, here, -⟩ := VirtualOS.realizes_of_initial? accepts (accepts.length_eq ▸ room) start
  have bound := (List.getElem?_eq_some_iff.mp here).1
  rw [← means.length_eq] at bound
  exact ⟨_, List.getElem?_eq_getElem bound⟩

/-- Runnable sources fit. -/
theorem sourceFits_of_runnable (runnable : List.Forall₂ Runnable sources meanings) :
    ∀ source ∈ sources, VirtualOS.SourceFits source := by
  obtain ⟨programs, accepts, -⟩ := Runnable.programs runnable
  exact accepts.sourceFits

/-- So every process that is loaded from them is self-contained from its start. -/
theorem initials_selfContained (runnable : List.Forall₂ Runnable sources meanings)
    (room : sources.length ≤ VirtualOS.processCapacity) (contained : ∀ meaning ∈ meanings, meaning.SelfContained)
    (p : ProcessRef) (initial : ExecutionContext) (start : VirtualOS.initial? sources p = some initial) :
    initial.SelfContained := by
  obtain ⟨meaning, here⟩ := exists_meaning runnable room start
  obtain ⟨program, same, means, start', realizes⟩ := initial_means runnable room here
  cases start.symm.trans start'
  exact selfContained_of_meaning means realizes (contained meaning (List.mem_of_getElem? here))

end Initials

namespace Machine

variable {κ : Type} {files : FileSystem} {sources : List Text} {meanings : List Meaning} {machine : Machine κ}

/-- The schedule gives each process some number of instructions, which alone come to
the same registers, memory and output as on the machine. -/
theorem Scheduled.runs_as_written (scheduled : machine.Scheduled sources)
    (runnable : List.Forall₂ Runnable sources meanings)
    (room : sources.length ≤ VirtualOS.processCapacity) (contained : ∀ meaning ∈ meanings, meaning.SelfContained)
    {p : ProcessRef} {meaning : Meaning} (here : meanings[p]? = some meaning) :
    ∃ process n last m, machine.process? p = some process ∧
      after (ProcessModel.advance meaning.commands) (.Continue, meaning.start) n = some (last, m) ∧
      (machine.os.context process).Shows m ∧ printed machine.os.output process.id = m.printed ∧
      (process.state = .Halted → last.Ends) := by
  obtain ⟨program, initial, means, start, realizes⟩ := initial_means runnable room here
  obtain ⟨process, found⟩ := scheduled.complete p initial start
  obtain ⟨initial', n, last, reached, start', alone, same, print, stage⟩ := scheduled.follows p process found
  cases start.symm.trans start'
  obtain ⟨m, there, realizes⟩ := alone_means means realizes (contained _ (List.mem_of_getElem? here)).stays alone
  have fitting : reached.process.layout.Fitting := same.layout ▸ scheduled.separate.fitting found
  refine ⟨process, n, last, m, found, there, realizes.shows same.symm fitting, print.trans ?_, fun halted => ?_⟩
  · cases realizes with
    | intro holds => rw [← show reached.process.id = process.id from same.id.symm]; rfl
  · cases stage with
    | going _ _ notHalted => exact absurd halted notHalted
    | ending ends => exact ends
    | ended ends => exact ends

variable [DecidableEq κ] [Fintype κ]

/-- At every moment of a run of any number of cores, with any quantum and in any
order, each process is where the commands of its source come to, and has printed
what they print; a process that has halted is where they end. -/
theorem processes_run_as_written {quantum : Nat} {input : List Word} {rest : List (Action κ)}
    (runnable : List.Forall₂ Runnable sources meanings) (room : sources.length ≤ VirtualOS.processCapacity)
    (contained : ∀ meaning ∈ meanings, meaning.SelfContained) (schedules : ∀ action ∈ rest, action.Schedules)
    (ran : run files (boot quantum input) (sources.map .load ++ rest) = some machine)
    (lives : machine.terminated = false) :
    ∀ p meaning, meanings[p]? = some meaning → ∃ process n last m, machine.process? p = some process ∧
      after (ProcessModel.advance meaning.commands) (.Continue, meaning.start) n = some (last, m) ∧
      (machine.os.context process).Shows m ∧ printed machine.os.output process.id = m.printed ∧
      (process.state = .Halted → last.Ends) := by
  have scheduled := scheduled_of_run (sourceFits_of_runnable runnable) (initials_selfContained runnable room contained)
    schedules ran lives
  exact fun p meaning here => scheduled.runs_as_written runnable room contained here

/-- What the two programs say. -/
def countAndHaltMeanings : List Meaning :=
  [{ commands := [.unary .inc 1, .call (some .Print) 0, .halt], data := [7, 0, 0, 0] },
    { commands := [.halt], data := [] }]

theorem countAndHalt_runnable : List.Forall₂ Runnable countAndHalt countAndHaltMeanings := by decide +kernel

theorem countAndHalt_checked : List.Forall₂ Meaning.Checked countAndHaltMeanings [3, 1] := by decide +kernel

theorem countAndHalt_selfContained : ∀ meaning ∈ countAndHaltMeanings, meaning.SelfContained := by
  have each : ∀ {meanings : List Meaning} {durations : List Nat}, List.Forall₂ Meaning.Checked meanings durations →
      ∀ meaning ∈ meanings, meaning.SelfContained := by
    intro meanings durations checked
    induction checked with
    | nil => exact fun _ member => nomatch member
    | cons first _ ih => exact List.forall_mem_cons.mpr ⟨first.selfContained, ih⟩
  exact each countAndHalt_checked

theorem processes_run_as_written_countAndHalt :
    ∃ machine : Machine (Fin 2), run oneFile (boot 100 []) (countAndHalt.map .load ++ twoCores) = some machine ∧
      ∀ p meaning, countAndHaltMeanings[p]? = some meaning → ∃ process n last m, machine.process? p = some process ∧
        after (ProcessModel.advance meaning.commands) (.Continue, meaning.start) n = some (last, m) ∧
        (machine.os.context process).Shows m ∧ printed machine.os.output process.id = m.printed ∧
        (process.state = .Halted → last.Ends) := by
  have two : (run oneFile (boot 100 []) (countAndHalt.map .load ++ twoCores)).map (fun machine : Machine (Fin 2) =>
      machine.terminated) = some false := by decide +kernel
  obtain ⟨machine, ran, lives⟩ := Option.map_eq_some_iff.mp two
  exact ⟨machine, ran, processes_run_as_written countAndHalt_runnable (by decide) countAndHalt_selfContained
    (by decide) ran lives⟩

end Machine

end VirtualMachine
