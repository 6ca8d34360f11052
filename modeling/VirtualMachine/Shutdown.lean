import VirtualMachine.NoStranding

namespace VirtualMachine

open TransitionSystem

/-- The action belongs to a call of `run` that is under way and has not returned. -/
def Action.DuringRun {κ : Type} : Action κ → Prop
  | .core _ | .stop => True
  | _ => False

/-- When all processes have halted, a core changes none and adds none. -/
theorem CoreMove.quiescent {files : FileSystem} {stopRequested : Bool} {os after : VirtualOS} {state next : CoreState}
    (move : CoreMove files stopRequested os state next after) (consistent : state.Consistent os)
    (halted : os.processTable.allHalted = true) :
    after.processTable.allHalted = true ∧
      after.processTable.processes.length = os.processTable.processes.length := by
  have all := ProcessTable.allHalted_iff.mp halted
  have stays : ∀ p process, after.process? p = some process → process.state = .Halted :=
    fun p process found => move.stays_halted consistent all found
  refine ⟨ProcessTable.allHalted_iff.mpr stays, ?_⟩
  rcases move.grows with same | ⟨-, -, process, found, ready⟩
  · exact same
  · exact absurd ((stays _ process found).symm.trans ready) (by decide)

/-- A core begins a load by emplacing a process, at the end of the table. -/
theorem CoreMove.begins_load {files : FileSystem} {stopRequested : Bool} {os after : VirtualOS} {state next : CoreState}
    {p child : ProcessRef} {stage : LoadStage} (move : CoreMove files stopRequested os state next after)
    (before : ∀ p child stage, state ≠ .loading p child stage) (loading : next = .loading p child stage) :
    stage = .emplaced ∧ child = os.processTable.processes.length ∧ state.held = some p := by
  cases move with
  | emplace found alive load opened accepted loaded =>
    cases loading
    exact ⟨rfl, rfl, rfl⟩
  | publish => exact absurd rfl (before _ _ _)
  | leave | starve | acquire | look | discard | throw | finish | loadFails | finishLoad | halt | fail | yield | expire
  | keep | preempt | pass | giveBack | drop | announce => cases loading

theorem CoreMove.after_emplaced {files : FileSystem} {stopRequested : Bool} {os after : VirtualOS}
    {state next : CoreState} {p child : ProcessRef} (move : CoreMove files stopRequested os state next after)
    (loading : state = .loading p child .emplaced) : next = .loading p child .ready := by
  subst loading
  cases move with
  | leave stop top => simp at top
  | publish => rfl

theorem CoreMove.after_ready {files : FileSystem} {stopRequested : Bool} {os after : VirtualOS}
    {state next : CoreState} {p child : ProcessRef} (move : CoreMove files stopRequested os state next after)
    (loading : state = .loading p child .ready) : next = .executed p .Continue := by
  subst loading
  cases move with
  | leave stop top => simp at top
  | finishLoad => rfl

namespace Machine

variable {κ : Type} [DecidableEq κ] [Fintype κ]

/-- The rest of a load system call of a core that has begun one. -/
def completeLoad (files : FileSystem) (machine : Machine κ) (c : κ) : Option (Machine κ) :=
  match machine.cores c with
  | .loading _ _ _ => (machine.step files (.core c)).bind (fun next => next.step files (.core c))
  | _ => some machine

/-- An action, where a load system call is one step. -/
def atomicStep (files : FileSystem) (machine : Machine κ) (action : Action κ) : Option (Machine κ) :=
  match action with
  | .core c => (machine.step files (.core c)).bind (fun next => next.completeLoad files c)
  | _ => machine.step files action

/-- What holds between the atomic steps. -/
structure AtomicSound (machine : Machine κ) : Prop extends Exclusive machine where
  noLoad : ∀ c p child stage, machine.cores c ≠ .loading p child stage
  stopping : machine.phase = .stopping → machine.os.processTable.allHalted = true

variable {files : FileSystem} {machine next : Machine κ} {action : Action κ} {c : κ}

theorem atomicStep_of_ne (notCore : ∀ c, action ≠ .core c) :
    machine.atomicStep files action = machine.step files action := by
  cases action with
  | core c => exact absurd rfl (notCore c)
  | load | step | start | stop | join => rfl

/-- The steps of a core under this invariant: it stays, and once all processes
have halted they are and remain all there is. -/
structure CoreStepped (machine next : Machine κ) : Prop where
  exclusive : next.Exclusive
  phase : next.phase = machine.phase
  quiescent : machine.os.processTable.allHalted = true → next.os.processTable.allHalted = true ∧
    next.os.processTable.processes.length = machine.os.processTable.processes.length

namespace CoreStepped

theorem of_step (exclusive : machine.Exclusive) (unheld : machine.PublishesUnheld (.core c))
    (taken : machine.step files (.core c) = some next) : CoreStepped machine next := by
  have kept := exclusive.step unheld taken
  cases step_move taken with
  | core c move => exact ⟨kept, rfl, fun halted => move.quiescent (exclusive.consistent c) halted⟩

omit [DecidableEq κ] [Fintype κ] in
theorem trans {middle : Machine κ} (first : CoreStepped machine middle) (last : CoreStepped middle next) :
    CoreStepped machine next where
  exclusive := last.exclusive
  phase := last.phase.trans first.phase
  quiescent halted := by
    obtain ⟨between, length⟩ := first.quiescent halted
    obtain ⟨after, more⟩ := last.quiescent between
    exact ⟨after, more.trans length⟩

end CoreStepped

omit [DecidableEq κ] [Fintype κ] in
theorem publishesUnheld_of_not_emplaced (idle : ∀ p child, machine.cores c ≠ .loading p child .emplaced) :
    machine.PublishesUnheld (.core c) := by
  intro child published
  cases state : machine.cores c with
  | loading p loaded stage =>
    cases stage with
    | emplaced => exact absurd state (idle p loaded)
    | ready => simp [published?, state] at published
  | _ => simp [published?, state] at published

namespace AtomicSound

omit [DecidableEq κ] [Fintype κ] in
theorem boot (quantum : Nat) (input : List Word) : (Machine.boot quantum input : Machine κ).AtomicSound where
  toExclusive := .boot quantum input
  noLoad := by
    intro c p child stage impossible
    cases impossible
  stopping impossible := by
    cases impossible

/-- A step of a core, with the load system call that it may begin. -/
theorem core (sound : machine.AtomicSound) (taken : machine.atomicStep files (.core c) = some next) :
    CoreStepped machine next ∧ ∀ d p child stage, next.cores d ≠ .loading p child stage := by
  obtain ⟨begun, first, completed⟩ := Option.bind_eq_some_iff.mp taken
  have stepped : CoreStepped machine begun :=
    .of_step sound.toExclusive (publishesUnheld_of_not_emplaced fun p child => sound.noLoad c p child .emplaced) first
  have others : ∀ d, d ≠ c → begun.cores d = machine.cores d := fun d other => cores_step_other first other
  unfold completeLoad at completed
  split at completed
  · rename_i p child stage loading
    obtain ⟨published, second, third⟩ := Option.bind_eq_some_iff.mp completed
    obtain ⟨rfl, fresh, held⟩ := (core_move first).begins_load (sound.noLoad c) loading
    -- The new process has a number that no core can know.
    have unheld : begun.PublishesUnheld (.core c) := by
      intro same published d holds
      rw [published?, loading] at published
      cases published
      have known : machine.Holds d child := by
        by_cases mine : d = c
        · subst mine
          rw [Holds, loading] at holds
          cases holds
          exact held
        · rw [Holds, others d mine] at holds
          exact holds
      obtain ⟨process, found, -⟩ := (sound.consistent d).held known
      exact Nat.lt_irrefl _ (fresh ▸ VirtualOS.lt_length_of_process? found)
    have ready : published.cores c = .loading p child .ready := (core_move second).after_emplaced loading
    have executed : next.cores c = .executed p .Continue := (core_move third).after_ready ready
    have last : published.PublishesUnheld (.core c) := by
      refine publishesUnheld_of_not_emplaced fun q other same => ?_
      rw [ready] at same
      cases same
    have middle : CoreStepped begun published := .of_step stepped.exclusive unheld second
    refine ⟨(stepped.trans middle).trans (.of_step middle.exclusive last third), fun d q other stage => ?_⟩
    by_cases mine : d = c
    · subst mine
      rw [executed]
      intro impossible
      cases impossible
    · rw [cores_step_other third mine, cores_step_other second mine, others d mine]
      exact sound.noLoad d q other stage
  · rename_i noLoad
    cases completed
    refine ⟨stepped, fun d p child stage => ?_⟩
    by_cases mine : d = c
    · subst mine
      exact noLoad p child stage
    · rw [others d mine]
      exact sound.noLoad d p child stage

/-- No other action is part of a load, or touches a core that is in one. -/
theorem other (sound : machine.AtomicSound) (taken : machine.step files action = some next)
    (notCore : ∀ c, action ≠ .core c) : next.AtomicSound := by
  have unheld : machine.PublishesUnheld action := by
    intro child published
    cases action with
    | core c => exact absurd rfl (notCore c)
    | load | step | start | stop | join => cases published
  have exclusive := sound.toExclusive.step unheld taken
  cases step_move taken with
  | load source idle =>
    refine ⟨exclusive, sound.noLoad, fun stopping => ?_⟩
    exact absurd (idle.symm.trans stopping) (by decide)
  | step id steps idle =>
    refine ⟨exclusive, sound.noLoad, fun stopping => ?_⟩
    exact absurd (idle.symm.trans stopping) (by decide)
  | start idle =>
    refine ⟨exclusive, fun c p child stage impossible => ?_, fun impossible => ?_⟩
    · cases impossible
    · cases impossible
  | stop waiting halted => exact ⟨exclusive, sound.noLoad, fun _ => halted⟩
  | join stopping exited =>
    refine ⟨exclusive, sound.noLoad, fun impossible => ?_⟩
    cases impossible
  | core c move => exact absurd rfl (notCore c)

theorem step (sound : machine.AtomicSound) (taken : machine.atomicStep files action = some next) :
    next.AtomicSound := by
  by_cases isCore : ∃ c, action = .core c
  · obtain ⟨c, rfl⟩ := isCore
    obtain ⟨stepped, noLoad⟩ := sound.core taken
    refine ⟨stepped.exclusive, noLoad, fun stopping => ?_⟩
    rw [stepped.phase] at stopping
    exact (stepped.quiescent (sound.stopping stopping)).1
  · have notCore : ∀ c, action ≠ .core c := fun c same => isCore ⟨c, same⟩
    rw [atomicStep_of_ne notCore] at taken
    exact sound.other taken notCore

/-- Once all processes have halted, the rest of a call of `run` changes nothing about that. -/
theorem quiescent_run {actions : List (Action κ)} (sound : machine.AtomicSound)
    (halted : machine.os.processTable.allHalted = true) (during : ∀ action ∈ actions, action.DuringRun)
    (ran : TransitionSystem.run (atomicStep files) machine actions = some next) :
    next.os.processTable.allHalted = true ∧
      next.os.processTable.processes.length = machine.os.processTable.processes.length := by
  induction actions generalizing machine with
  | nil =>
    cases ran
    exact ⟨halted, rfl⟩
  | cons action actions ih =>
    obtain ⟨middle, taken, remaining⟩ := run_cons_iff.mp ran
    have first : middle.os.processTable.allHalted = true ∧
        middle.os.processTable.processes.length = machine.os.processTable.processes.length := by
      cases action with
      | core c => exact (sound.core taken).1.quiescent halted
      | stop =>
        have stopped : machine.step files .stop = some middle := taken
        cases step_move stopped with
        | stop waiting _ => exact ⟨halted, rfl⟩
      | load | step | start | join => exact (during _ List.mem_cons_self).elim
    obtain ⟨after, more⟩ := ih (sound.step taken) first.1
      (fun other member => during other (List.mem_cons_of_mem _ member)) remaining
    exact ⟨after, more.trans first.2⟩

end AtomicSound

/-- The action has a core execute an instruction. -/
def CoreExecutes (machine : Machine κ) : Action κ → Prop
  | .core c => ∃ p process, machine.cores c = .holding p ∧ machine.stopRequested = false ∧
      machine.process? p = some process ∧ process.context.halted = false ∧ process.state ≠ .Halted
  | _ => False

/-- Shutdown comes only at quiescence, whatever programs are loaded and however
the cores interleave, as long as a load system call is one step: the cores are
told to stop only when all processes have halted, and from then on, as from any
moment at which all have, none is added and none executes an instruction. -/
theorem shutdown_at_quiescence {quantum : Nat} {input : List Word} {before : List (Action κ)}
    (ran : TransitionSystem.run (atomicStep files) (boot quantum input) before = some machine) :
    (machine.phase = .stopping → machine.os.processTable.allHalted = true) ∧
      (machine.os.processTable.allHalted = true → ∀ later next, (∀ action ∈ later, action.DuringRun) →
        TransitionSystem.run (atomicStep files) machine later = some next →
        next.os.processTable.allHalted = true ∧
          next.os.processTable.processes.length = machine.os.processTable.processes.length ∧
          ∀ action, ¬ next.CoreExecutes action) := by
  have sound : machine.AtomicSound :=
    run_invariant_of_step (fun _ _ _ sound taken => sound.step taken) (AtomicSound.boot quantum input) ran
  refine ⟨sound.stopping, fun halted later next during remaining => ?_⟩
  obtain ⟨stays, length⟩ := sound.quiescent_run halted during remaining
  refine ⟨stays, length, fun action executes => ?_⟩
  cases action with
  | core c =>
    obtain ⟨p, process, -, -, found, -, alive⟩ := executes
    exact alive (ProcessTable.allHalted_iff.mp stays p process found)
  | load | step | start | stop | join => exact executes

/-- A program loads another one, and the only core executes both to their ends. -/
def loadAndHalt : List (Action (Fin 1)) := .load loaderSource :: .start :: List.replicate 9 (.core onlyCore)

/-- The core lets the last process go and is told to stop. -/
def finishRun : List (Action (Fin 1)) := [.core onlyCore, .stop, .core onlyCore]

theorem shutdown_at_quiescence_loadAndHalt :
    ∃ machine next : Machine (Fin 1),
      TransitionSystem.run (atomicStep oneFile) (boot 100 []) loadAndHalt = some machine ∧
      TransitionSystem.run (atomicStep oneFile) machine finishRun = some next ∧
      next.os.processTable.allHalted = true ∧ next.os.processTable.processes.length = 2 ∧
      ∀ action, ¬ next.CoreExecutes action := by
  have checked : (TransitionSystem.run (atomicStep oneFile) (boot 100 []) loadAndHalt).any
    (fun machine : Machine (Fin 1) =>
      machine.os.processTable.allHalted && decide (machine.os.processTable.processes.length = 2) &&
        (TransitionSystem.run (atomicStep oneFile) machine finishRun).isSome) = true := by decide +kernel
  obtain ⟨machine, ran, facts⟩ := (Option.any_eq_true _ _).mp checked
  rw [Bool.and_eq_true, Bool.and_eq_true, decide_eq_true_eq] at facts
  obtain ⟨⟨halted, two⟩, onward⟩ := facts
  obtain ⟨next, remaining⟩ := Option.isSome_iff_exists.mp onward
  have during : ∀ action ∈ finishRun, action.DuringRun := by
    intro action member
    simp only [finishRun, List.mem_cons, List.not_mem_nil, or_false] at member
    rcases member with rfl | rfl | rfl <;> trivial
  obtain ⟨stays, length, none⟩ := (shutdown_at_quiescence ran).2 halted finishRun next during remaining
  exact ⟨machine, next, ran, remaining, stays, length.trans two, none⟩

end Machine

end VirtualMachine
