import VirtualMachine.MutualExclusion
import VirtualMachine.Os.Numbering
import VirtualMachine.Os.Placement
import VirtualMachine.Os.ReadyQueue
import VirtualMachine.Os.RunningFlags

namespace VirtualMachine

open TransitionSystem

namespace CoreMove

variable {files : FileSystem} {stopRequested : Bool} {os after : VirtualOS} {state next : CoreState} {p : ProcessRef}
  {process : ProcessControlBlock}

/-- A process that a core gives up is ready again or halted, as long as the core
is not ended by a request to stop or by an exception. -/
theorem given_up (move : CoreMove files stopRequested os state next after) (goes : stopRequested = false)
    (alive : next ≠ .terminated) (held : state.held = some p) (released : next.held ≠ some p)
    (found : after.process? p = some process) : process.state ≠ .Running := by
  have madeReady : ∀ {q : ProcessRef} {same : ProcessControlBlock}, os.process? q = some same →
      (os.setState q .Ready).process? q = some process → process.state ≠ .Running := by
    intro q same here set
    rw [VirtualOS.process?_setState_same, here] at set
    cases set
    exact fun running => nomatch running
  cases move with
  | leave stop top =>
    rw [goes] at stop
    cases stop
  | throw | loadFails => exact absurd rfl alive
  | starve | acquire | look | announce => cases held
  | discard | finish | emplace | publish | finishLoad | halt | fail | yield | expire
  | keep => exact absurd held released
  | preempt here running scheduler =>
    cases held
    exact madeReady here found
  | giveBack here running =>
    cases held
    exact madeReady here found
  | pass here ready =>
    cases held
    rw [here] at found
    cases found
    rw [ready]
    decide
  | drop here halted =>
    cases held
    rw [VirtualOS.process?_notifyProcessReady, here] at found
    cases found
    rw [halted]
    decide

/-- Halted processes stay halted while the cores run out. -/
theorem stays_halted (move : CoreMove files stopRequested os state next after) (consistent : state.Consistent os)
    (halted : ∀ p process, os.process? p = some process → process.state = .Halted)
    (found : after.process? p = some process) : process.state = .Halted := by
  have written : ∀ {q : ProcessRef} {f : ProcessControlBlock → ProcessControlBlock},
      (os.modifyProcess q f).process? p = some process →
      (∀ process, process.state = .Halted → (f process).state = .Halted) → process.state = .Halted := by
    intro q f found keeps
    by_cases same : p = q
    · subst same
      rw [VirtualOS.process?_modifyProcess_same] at found
      obtain ⟨old, here, rfl⟩ := Option.map_eq_some_iff.mp found
      exact keeps old (halted p old here)
    · rw [VirtualOS.process?_modifyProcess_other _ _ same] at found
      exact halted p process found
  cases move with
  | leave | starve | look | discard | expire | keep | pass | drop | announce => exact halted p process found
  | acquire scheduler here ready => exact absurd ((halted _ _ here).symm.trans ready) (by decide)
  | throw here alive began => exact absurd (halted _ _ here) alive.2
  | finish here alive began => exact absurd (halted _ _ here) alive.2
  | loadFails here alive load left => exact absurd (halted _ _ here) alive.2
  | emplace here alive load opened accepted loaded => exact absurd (halted _ _ here) alive.2
  | publish =>
    obtain ⟨running, here, state⟩ := consistent
    exact absurd ((halted _ _ here).symm.trans state) (by decide)
  | finishLoad =>
    obtain ⟨running, here, state⟩ := consistent
    exact absurd ((halted _ _ here).symm.trans state) (by decide)
  | halt here ended => exact written found (fun _ _ => rfl)
  | fail here alive => exact written found (fun _ _ => rfl)
  | yield here alive continues => exact written found (fun _ was => was)
  | preempt here running scheduler => exact absurd ((halted _ _ here).symm.trans running) (by decide)
  | giveBack here alive => exact absurd (halted _ _ here) alive

/-- If no process runs without a core before a step, none does after it. -/
theorem unheld_state (move : CoreMove files stopRequested os state next after) (alive : next ≠ .terminated)
    (consistent : state.Consistent os)
    (stopped : stopRequested = true → ∀ p process, os.process? p = some process → process.state = .Halted)
    (before : ∀ process, os.process? p = some process → state.held ≠ some p → process.state ≠ .Running)
    (found : after.process? p = some process) (unheld : next.held ≠ some p) : process.state ≠ .Running := by
  by_cases held : state.held = some p
  · cases goes : stopRequested with
    | false => exact move.given_up goes alive held unheld found
    | true =>
      rw [move.stays_halted consistent (stopped goes) found]
      decide
  · by_cases published : ∃ q, state = .loading q p .emplaced
    · obtain ⟨q, rfl⟩ := published
      cases move with
      | leave stop top => simp at top
      | publish =>
        have bound := VirtualOS.lt_length_of_process? found
        rw [VirtualOS.length_setState] at bound
        obtain ⟨same, here⟩ := os.exists_process? bound
        rw [VirtualOS.process?_setState_same, here] at found
        cases found
        exact fun running => nomatch running
    · rcases Nat.lt_or_ge p os.processTable.processes.length with old | new
      · have kept := move.process?_kept old held unheld (fun q loading => published ⟨q, loading⟩)
        rw [kept] at found
        exact before process found held
      · have bound := VirtualOS.lt_length_of_process? found
        rcases move.grows with same | ⟨more, -, fresh, here, ready⟩
        · rw [same] at bound
          exact absurd bound (Nat.not_lt.mpr new)
        · rw [more] at bound
          obtain rfl : p = os.processTable.processes.length := Nat.le_antisymm (Nat.lt_succ_iff.mp bound) new
          rw [here] at found
          cases found
          rw [ready]
          decide

end CoreMove

/-- The arguments of a call of `step`. -/
def Action.stepCall? {κ : Type} : Action κ → Option (ProcessId × Nat)
  | .step id steps => some (id, steps)
  | _ => none

namespace Machine

variable {κ : Type}

/-- A call of `step` executes nothing, or it comes to an exit: then the process
is not left running. -/
def StepsToExit (files : FileSystem) (machine : Machine κ) (action : Action κ) : Prop :=
  ∀ call ∈ action.stepCall?, call.2 = 0 ∨
    ∀ p ∈ machine.os.processTable.find call.1, VirtualOS.reachesExit files call.1 p call.2 machine.os = true

/-- No action leaves a process behind that runs without a core. -/
def Unstranding (files : FileSystem) (machine : Machine κ) (action : Action κ) : Prop :=
  machine.PublishesUnheld action ∧ machine.StepsToExit files action

instance [Fintype κ] (files : FileSystem) (machine : Machine κ) (action : Action κ) :
    Decidable (machine.Unstranding files action) :=
  inferInstanceAs (Decidable (_ ∧ ∀ call ∈ action.stepCall?, call.2 = 0 ∨ ∀ p ∈ _, _ = true))

/-- The end of `run` stops the scheduler, and nothing starts it again: from then
on the action adds no process, neither by a load of the interface nor by a load
system call among the instructions that a call of `step` executes. -/
def AddsInTime (files : FileSystem) (machine : Machine κ) (action : Action κ) : Prop :=
  machine.os.scheduler.running = false →
    match action with
    | .load source =>
      ∀ program ∈ VirtualOS.program? source, ¬ ProgramLoader.Loads machine.os.physicalMemory program
    | .step id steps =>
      ∀ p ∈ machine.os.processTable.find id,
        VirtualOS.eachInstruction VirtualOS.loadless files id p steps machine.os = true
    | _ => True

instance (files : FileSystem) (machine : Machine κ) : (action : Action κ) → Decidable (machine.AddsInTime files action)
  | .load _ => inferInstanceAs (Decidable (_ → ∀ program ∈ VirtualOS.program? _, ¬ _))
  | .step _ _ => inferInstanceAs (Decidable (_ → ∀ p ∈ machine.os.processTable.find _, _ = true))
  | .start | .stop | .join | .core _ => inferInstanceAs (Decidable (_ → True))

/-- No action leaves a process behind that no later call of `run` can work on. -/
def StrandsNone (files : FileSystem) (machine : Machine κ) (action : Action κ) : Prop :=
  machine.Unstranding files action ∧ machine.AddsInTime files action

instance [Fintype κ] (files : FileSystem) (machine : Machine κ) (action : Action κ) :
    Decidable (machine.StrandsNone files action) :=
  inferInstanceAs (Decidable (_ ∧ _))

/-- Once `notifyProcessReady` has been called, which is how `run` begins, the
acquisitions of the cores come to process `p`. -/
def Acquires (machine : Machine κ) (p : ProcessRef) : Prop :=
  PreemptiveScheduler.Acquirable p machine.os.notifyProcessReady.scheduler machine.os.notifyProcessReady.processTable

/-- A process runs exactly while a core holds it that has not halted it yet, so
that none runs between two calls of the interface. A process that is neither
halted nor held is ready, and the cores can acquire it, those of the next call
of `run` if none is under way. -/
def NoneStranded (machine : Machine κ) : Prop :=
  ∀ p process, machine.process? p = some process →
    (process.state = .Running ↔ (∃ c, machine.Holds c p) ∧ process.state ≠ .Halted) ∧
      (process.state ≠ .Halted → (∀ c, ¬ machine.Holds c p) → process.state = .Ready ∧ machine.Acquires p) ∧
      (machine.phase = .idle → process.state ≠ .Running)

/-- The invariant behind the states of the processes. -/
structure Accounted (machine : Machine κ) : Prop extends Exclusive machine where
  unheld : machine.terminated = false → ∀ p process, machine.process? p = some process →
    (∀ c, ¬ machine.Holds c p) → process.state ≠ .Running
  waiting : machine.phase = .waiting → machine.stopRequested = false
  stopping : machine.phase = .stopping → ∀ p process, machine.process? p = some process → process.state = .Halted

namespace Accounted

variable {files : FileSystem} {machine next : Machine κ} {action : Action κ}

/-- The states of the processes, without what the scheduler makes of them. -/
theorem states (accounted : machine.Accounted) (alive : machine.terminated = false) {p : ProcessRef}
    {process : ProcessControlBlock} (found : machine.process? p = some process) :
    (process.state = .Running ↔ (∃ c, machine.Holds c p) ∧ process.state ≠ .Halted) ∧
      (process.state ≠ .Halted → (∀ c, ¬ machine.Holds c p) → process.state = .Ready) ∧
      (machine.phase = .idle → process.state ≠ .Running) := by
  have held : ∀ c, machine.Holds c p → process.state ≠ .Ready := by
    intro c holds
    obtain ⟨same, here, notReady⟩ := (accounted.consistent c).held holds
    have current : machine.os.process? p = some process := found
    rw [here] at current
    cases current
    exact notReady
  have unheld := accounted.unheld alive p process found
  refine ⟨⟨fun running => ⟨?_, ?_⟩, ?_⟩, fun alive free => ?_, fun idle => unheld fun c holds => ?_⟩
  · by_contra free
    exact unheld (fun c holds => free ⟨c, holds⟩) running
  · rw [running]
    decide
  · rintro ⟨⟨c, holds⟩, notHalted⟩
    cases state : process.state with
    | Ready => exact absurd state (held c holds)
    | Running => rfl
    | Halted => exact absurd state notHalted
  · cases state : process.state with
    | Ready => rfl
    | Running => exact absurd state (unheld free)
    | Halted => exact absurd state alive
  · rw [Holds, accounted.idle idle c] at holds
    cases holds

theorem boot (quantum : Nat) (input : List Word) : (Machine.boot quantum input : Machine κ).Accounted where
  toExclusive := .boot quantum input
  unheld _ p process found := by
    cases found
  waiting impossible := by
    cases impossible
  stopping impossible := by
    cases impossible

/-- An interface call, made while no core runs. -/
theorem of_idle {os : VirtualOS} (accounted : machine.Accounted) (idle : machine.phase = .idle)
    (unheld : machine.terminated = false → ∀ p process, os.process? p = some process → process.state ≠ .Running) :
    ({ machine with os := os } : Machine κ).Accounted where
  toExclusive := accounted.toExclusive.of_idle idle
  unheld alive p process found _ := unheld alive p process found
  waiting := accounted.waiting
  stopping impossible := by
    rw [show machine.phase = .stopping from impossible] at idle
    cases idle

theorem load (accounted : machine.Accounted) (idle : machine.phase = .idle) (source : Text) :
    ({ machine with os := (machine.os.loadProgramFromSource source).2 } : Machine κ).Accounted := by
  refine accounted.of_idle idle fun alive p process found => ?_
  have running := accounted.unheld alive
  rcases machine.os.loadProgramFromSource_cases source with
    ⟨physical, _, same⟩ | ⟨program, layout, physical, _, _, published⟩
  · rw [same] at found
    refine running p process found fun c holds => ?_
    rw [Holds, accounted.idle idle c] at holds
    cases holds
  · rw [published] at found
    have others := OthersKept.of_published (p + 1) machine.os physical layout
    have other : p ≠ p + 1 := Nat.ne_of_lt (Nat.lt_succ_self p)
    rcases Nat.lt_or_ge p machine.os.processTable.processes.length with old | new
    · rw [others.kept p other old] at found
      refine running p process found fun c holds => ?_
      rw [Holds, accounted.idle idle c] at holds
      cases holds
    · rw [others.fresh p process other new found]
      decide

theorem stepCall (accounted : machine.Accounted) (idle : machine.phase = .idle) {id : ProcessId} {steps : Nat}
    (exits : machine.StepsToExit files (.step id steps)) :
    ({ machine with os := (machine.os.step files id steps).2 } : Machine κ).Accounted := by
  refine accounted.of_idle idle fun alive p process found => ?_
  have running : ∀ q process, machine.os.process? q = some process → process.state ≠ .Running := by
    intro q process here
    refine accounted.unheld alive q process here fun c holds => ?_
    rw [Holds, accounted.idle idle c] at holds
    cases holds
  cases known : machine.os.processTable.find id with
  | none =>
    rw [VirtualOS.step, VirtualOS.stepLoop_of_find_none steps .Continue known] at found
    exact running p process found
  | some q =>
    rcases exits (id, steps) rfl with nothing | exits
    · obtain rfl : steps = 0 := nothing
      exact running p process found
    · obtain ⟨current, own, halted, -⟩ := VirtualOS.stepLoop_exit .Continue (exits q known) known
      have others := VirtualOS.stepLoop_others files steps .Continue machine.os known
      by_cases same : p = q
      · subst same
        rw [VirtualOS.step, own] at found
        cases found
        rw [halted]
        decide
      · rcases Nat.lt_or_ge p machine.os.processTable.processes.length with old | new
        · rw [VirtualOS.step, others.kept p same old] at found
          exact running p process found
        · rw [others.fresh p process same new found]
          decide

variable [DecidableEq κ] [Fintype κ]

theorem step (accounted : machine.Accounted) (unstranding : machine.Unstranding files action)
    (taken : machine.step files action = some next) (live : machine.terminated = false) : next.Accounted := by
  have exclusive := accounted.toExclusive.step unstranding.1 taken
  cases step_move taken with
  | load source idle => exact accounted.load idle source
  | step id steps idle => exact accounted.stepCall idle unstranding.2
  | start idle =>
    refine ⟨exclusive, fun alive p process found _ => ?_, fun _ => rfl, by intro impossible; cases impossible⟩
    refine accounted.unheld alive p process found fun c holds => ?_
    rw [Holds, accounted.idle idle c] at holds
    cases holds
  | stop waiting halted =>
    have all : ∀ p process, machine.process? p = some process → process.state = .Halted :=
      ProcessTable.allHalted_iff.mp halted
    refine ⟨exclusive, accounted.unheld, (by intro impossible; cases impossible), fun _ => all⟩
  | join stopping exited =>
    exact ⟨exclusive, accounted.unheld, (by intro impossible; cases impossible), by intro impossible; cases impossible⟩
  | @core c state os move =>
    have running : machine.phase ≠ .idle := by
      intro idle
      have exited := accounted.idle idle c
      rw [exited] at move
      cases move with
      | leave stop top => simp at top
    have stopped : machine.stopRequested = true → ∀ p process, machine.os.process? p = some process →
        process.state = .Halted := by
      intro stop
      cases phase : machine.phase with
      | idle => exact absurd phase running
      | waiting =>
        rw [accounted.waiting phase] at stop
        cases stop
      | stopping => exact accounted.stopping phase
    refine ⟨exclusive, fun alive p process found free => ?_, accounted.waiting, fun stopping p process found => ?_⟩
    · have notTerminated : state ≠ .terminated := of_decide_eq_false alive
      have unheld : state.held ≠ some p := fun held => free c (holds_update_same.mpr held)
      refine move.unheld_state notTerminated (accounted.consistent c) stopped (fun process here mine => ?_) found unheld
      refine accounted.unheld live p process here fun d holds => ?_
      by_cases same : d = c
      · subst same
        exact mine holds
      · exact free d ((holds_update_other same).mpr holds)
    · exact move.stays_halted (accounted.consistent c) (accounted.stopping stopping) found

end Accounted

/-- Beside the states, the scheduler is able to hand out every process that has
not halted yet: once it is stopped there is none. -/
structure Schedulable (machine : Machine κ) : Prop extends Accounted machine where
  numbered : machine.os.Numbered
  placed : machine.os.Placed
  stopped : machine.os.scheduler.running = false → ∀ p process, machine.process? p = some process →
    process.state = .Halted

namespace Schedulable

variable {files : FileSystem} {machine next : Machine κ} {action : Action κ}

theorem boot (quantum : Nat) (input : List Word) : (Machine.boot quantum input : Machine κ).Schedulable where
  toAccounted := .boot quantum input
  numbered := .create quantum input
  placed := .create quantum input
  stopped _ p process found := by
    cases found

/-- A process that is ready can be acquired after a call of `notifyProcessReady`,
which puts its id into the queue if it is not there. -/
theorem acquires (schedulable : machine.Schedulable) {p : ProcessRef} {process : ProcessControlBlock}
    (found : machine.process? p = some process) (ready : process.state = .Ready) : machine.Acquires p := by
  have running : machine.os.scheduler.running = true := by
    cases runs : machine.os.scheduler.running with
    | true => rfl
    | false =>
      have halted := schedulable.stopped runs p process found
      rw [ready] at halted
      cases halted
  have queued := VirtualOS.notifyProcessReady_queues found ready
  exact PreemptiveScheduler.acquirable_of_queued running schedulable.numbered.ids found ready queued

theorem noneStranded (schedulable : machine.Schedulable) (alive : machine.terminated = false) :
    machine.NoneStranded := by
  intro p process found
  obtain ⟨running, ready, idle⟩ := schedulable.toAccounted.states alive found
  refine ⟨running, fun notHalted free => ?_, idle⟩
  have isReady := ready notHalted free
  exact ⟨isReady, schedulable.acquires found isReady⟩

/-- A program is loaded: where the scheduler has been stopped, the load fails. -/
theorem stopped_load (schedulable : machine.Schedulable) {source : Text}
    (inTime : machine.AddsInTime files (.load source))
    {p : ProcessRef} {process : ProcessControlBlock} (stopped : machine.os.scheduler.running = false)
    (found : (machine.os.loadProgramFromSource source).2.process? p = some process) : process.state = .Halted := by
  rcases machine.os.loadProgramFromSource_cases source with
    ⟨physical, -, same⟩ | ⟨program, layout, physical, accepted, loaded, -⟩
  · rw [same] at found
    exact schedulable.stopped stopped p process found
  · have refused := inTime stopped program accepted
    rcases ProgramLoader.load_cases schedulable.placed.size program with ⟨loads, -⟩ | ⟨-, e, after, failed, -⟩
    · exact absurd loads refused
    · rw [loaded] at failed
      cases failed

/-- A process is stepped: where the scheduler has been stopped, it comes to its
exit again and loads nothing. -/
theorem stopped_step (schedulable : machine.Schedulable) {id : ProcessId} {steps : Nat}
    (exits : machine.StepsToExit files (.step id steps)) (inTime : machine.AddsInTime files (.step id steps))
    {p : ProcessRef} {process : ProcessControlBlock} (stopped : machine.os.scheduler.running = false)
    (found : (machine.os.step files id steps).2.process? p = some process) : process.state = .Halted := by
  have halted := schedulable.stopped stopped
  cases known : machine.os.processTable.find id with
  | none =>
    rw [VirtualOS.step, VirtualOS.stepLoop_of_find_none steps .Continue known] at found
    exact halted p process found
  | some q =>
    rcases exits (id, steps) rfl with nothing | exits
    · obtain rfl : steps = 0 := nothing
      exact halted p process found
    · by_cases same : p = q
      · subst same
        obtain ⟨current, own, isHalted, -⟩ := VirtualOS.stepLoop_exit .Continue (exits p known) known
        rw [VirtualOS.step, own] at found
        cases found
        exact isHalted
      · have length := VirtualOS.stepLoop_length .Continue known (inTime stopped q known)
        have bound := VirtualOS.lt_length_of_process? found
        rw [VirtualOS.step, length] at bound
        have others := VirtualOS.stepLoop_others files steps .Continue machine.os known
        rw [VirtualOS.step, others.kept p same bound] at found
        exact halted p process found

variable [DecidableEq κ] [Fintype κ]

theorem step (schedulable : machine.Schedulable) (strandsNone : machine.StrandsNone files action)
    (taken : machine.step files action = some next) (live : machine.terminated = false) : next.Schedulable := by
  obtain ⟨unstranding, inTime⟩ := strandsNone
  have accounted := schedulable.toAccounted.step unstranding taken live
  have numbered := numbered_step schedulable.numbered taken
  have placed := placed_step schedulable.placed taken
  refine ⟨accounted, numbered, placed, ?_⟩
  cases step_move taken with
  | load source idle =>
    have flags := congrArg Prod.snd (machine.os.loadProgramFromSource_flags source)
    exact fun stopped p process found => schedulable.stopped_load inTime (flags.symm.trans stopped) found
  | step id steps idle =>
    have flags := congrArg Prod.snd (machine.os.step_flags files id steps)
    exact fun stopped p process found => schedulable.stopped_step unstranding.2 inTime (flags.symm.trans stopped) found
  | start idle => exact schedulable.stopped
  | stop waiting halted => exact fun _ => ProcessTable.allHalted_iff.mp halted
  | join stopping exited => exact schedulable.stopped
  | @core c state os move =>
    have flags : os.scheduler.running = machine.os.scheduler.running := congrArg Prod.snd (flags_of_core taken)
    intro stopped p process found
    exact move.stays_halted (schedulable.consistent c) (schedulable.stopped (flags.symm.trans stopped)) found

end Schedulable

variable [DecidableEq κ] [Fintype κ]

theorem schedulable_of_run {quantum : Nat} {input : List Word} {files : FileSystem} {actions : List (Action κ)}
    {machine : Machine κ}
    (guarded : Guarded (Machine.step files) (StrandsNone files) (boot quantum input) actions)
    (ran : run files (boot quantum input) actions = some machine) : machine.Schedulable := by
  refine run_invariant (fun machine action next schedulable strandsNone taken => ?_) (Schedulable.boot quantum input)
    guarded ran
  cases live : machine.terminated with
  | false => exact schedulable.step strandsNone taken live
  | true =>
    unfold Machine.step at taken
    rw [if_pos live] at taken
    cases taken

/-- No process is stranded in any run in which `step` is used only to run a
process to its exit, loaders publish processes no core holds yet, and no process
is added once a call of `run` has ended. -/
theorem none_stranded {quantum : Nat} {input : List Word} {files : FileSystem} {actions : List (Action κ)}
    {machine : Machine κ}
    (guarded : Guarded (Machine.step files) (StrandsNone files) (boot quantum input) actions)
    (ran : run files (boot quantum input) actions = some machine) (alive : machine.terminated = false) :
    machine.NoneStranded :=
  (schedulable_of_run guarded ran).noneStranded alive

def exitSource : Text := "CODE:\ninc r1\ncall exit, 0\n".toList

/-- One program is stepped to its exit, and another one is run by the core. -/
def stepThenRun : List (Action (Fin 1)) :=
  [.load exitSource, .load haltSource, .step 1 2, .start, .core onlyCore, .core onlyCore]

theorem none_stranded_stepThenRun :
    ∃ machine : Machine (Fin 1), run oneFile (boot 100 []) stepThenRun = some machine ∧ machine.NoneStranded := by
  have guarded : Guarded (Machine.step oneFile) (StrandsNone oneFile) (boot 100 []) stepThenRun := by decide +kernel
  have live : (run oneFile (boot 100 []) stepThenRun).map (fun machine => machine.terminated) = some false := by
    decide +kernel
  obtain ⟨machine, ran, alive⟩ := Option.map_eq_some_iff.mp live
  exact ⟨machine, ran, none_stranded guarded ran alive⟩

/-- After one single step of a program no core holds its process, and it runs. -/
theorem none_stranded_fails_after_step :
    ¬ ∀ (quantum : Nat) (input : List Word) (files : FileSystem) (actions : List (Action (Fin 1)))
      (machine : Machine (Fin 1)), run files (boot quantum input) actions = some machine → machine.terminated = false →
        machine.NoneStranded := by
  intro noneStranded
  have stranded : (run oneFile (boot 100 []) [.load exitSource, .step 1 1]).map (fun machine : Machine (Fin 1) =>
      (decide (machine.terminated = false ∧ machine.phase = .idle), machine.stateOf 0)) =
        some (true, some .Running) := by decide +kernel
  obtain ⟨machine, ran, reached⟩ := Option.map_eq_some_iff.mp stranded
  rw [Prod.mk.injEq, decide_eq_true_eq] at reached
  obtain ⟨⟨alive, idle⟩, state⟩ := reached
  obtain ⟨process, found, running⟩ := Option.map_eq_some_iff.mp state
  exact (noneStranded 100 [] oneFile _ machine ran alive 0 process found).2.2 idle running

end Machine

end VirtualMachine
