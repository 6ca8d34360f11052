import VirtualMachine.NoStranding

namespace VirtualMachine

open TransitionSystem

/-- What the caller of a machine and its cores do, with the call of `stop` that
the interface offers beside the one that ends `run`. -/
inductive InterfaceAction (κ : Type)
  | machine (action : Action κ)
  | stop

/-- A call of `run`. -/
def InterfaceAction.runs {κ : Type} : InterfaceAction κ → Bool
  | .machine .start => true
  | _ => false

namespace Machine

variable {κ : Type} [DecidableEq κ] [Fintype κ]

/-- `stop` by a caller that has no call of `run` under way: its cores have left
their loops. -/
def stopCall (machine : Machine κ) : Machine κ :=
  if machine.os.running = false then machine
  else
    { machine with
      os := { machine.os with scheduler := machine.os.scheduler.stop, running := false }
      stopRequested := true }

def interfaceStep (files : FileSystem) (machine : Machine κ) : InterfaceAction κ → Option (Machine κ)
  | .machine action => machine.step files action
  | .stop => if machine.phase = .idle then some machine.stopCall else none

/-- While a call of `run` waits, the scheduler is in its running state, and no
acquisition returns `nullptr` while a ready process is queued. -/
structure RunsScheduled (machine : Machine κ) : Prop where
  running : machine.phase = .waiting → machine.os.scheduler.running = true
  acquires : machine.phase = .waiting → ∀ p process, machine.process? p = some process → process.state = .Ready →
    process.id ∈ machine.os.scheduler.readyQueue →
    ∀ scheduler table, machine.os.scheduler.acquireProcess machine.os.processTable ≠ some (none, scheduler, table)

end Machine

namespace Machine

variable {κ : Type} [DecidableEq κ] [Fintype κ] {files : FileSystem} {machine next : Machine κ}

/-- Where a call of `run` has got, and what the flags are, after this many calls of `run`. -/
structure RunCount (count : Nat) (machine : Machine κ) : Prop where
  flag : machine.phase ≠ .waiting → machine.os.running = false
  fresh : count = 0 → machine.phase = .idle ∧ machine.os.scheduler.running = true
  first : count = 1 → machine.phase = .waiting → machine.os.scheduler.running = true
  later : 2 ≤ count ∨ 1 ≤ count ∧ machine.phase ≠ .waiting → machine.os.scheduler.running = false

namespace RunCount

variable {count : Nat} {action : InterfaceAction κ}

omit [DecidableEq κ] [Fintype κ] in
theorem boot (quantum : Nat) (input : List Word) : (Machine.boot quantum input : Machine κ).RunCount 0 := by
  refine ⟨fun _ => rfl, fun _ => ⟨rfl, rfl⟩, ?_, ?_⟩
  · intro impossible
    cases impossible
  · intro impossible
    omega

omit [DecidableEq κ] [Fintype κ] in
/-- Most actions change neither the phase nor the flags. -/
theorem congr (counted : machine.RunCount count) (phase : next.phase = machine.phase)
    (flags : next.os.flags = machine.os.flags) : next.RunCount count := by
  obtain ⟨running, scheduled⟩ := Prod.ext_iff.mp flags
  have sameRunning : next.os.running = machine.os.running := running
  have sameScheduled : next.os.scheduler.running = machine.os.scheduler.running := scheduled
  obtain ⟨flag, fresh, first, later⟩ := counted
  refine ⟨?_, ?_, ?_, ?_⟩ <;> simpa only [phase, sameRunning, sameScheduled]

theorem step (counted : machine.RunCount count) (taken : machine.interfaceStep files action = some next) :
    next.RunCount (count + if action.runs then 1 else 0) := by
  cases action with
  | stop =>
    obtain ⟨idle, same⟩ := Option.ite_none_right_eq_some.mp taken
    cases same
    rw [stopCall, if_pos (counted.flag (by rw [idle]; decide))]
    exact counted
  | machine action =>
    have stepped : machine.step files action = some next := taken
    cases step_move stepped with
    | load source idle => exact counted.congr rfl (machine.os.loadProgramFromSource_flags source)
    | step id steps idle => exact counted.congr rfl (machine.os.step_flags files id steps)
    | start idle =>
      have again : count ≠ 0 → machine.os.scheduler.running = false :=
        fun before => counted.later (Or.inr ⟨Nat.pos_of_ne_zero before, by rw [idle]; decide⟩)
      refine ⟨?_, ?_, ?_, ?_⟩
      · intro other
        exact absurd rfl other
      · intro impossible
        cases impossible
      · intro once _
        exact (counted.fresh (Nat.succ.inj once)).2
      · rintro (twice | ⟨-, waiting⟩)
        · exact again (by simp only [InterfaceAction.runs, if_true] at twice; omega)
        · exact absurd rfl waiting
    | stop waiting halted =>
      refine ⟨fun _ => rfl, ?_, ?_, fun _ => rfl⟩
      · intro none
        exact absurd ((counted.fresh none).1.symm.trans waiting) (by decide)
      · intro _ impossible
        cases impossible
    | join stopping exited =>
      have before : count ≠ 0 := fun none => absurd ((counted.fresh none).1.symm.trans stopping) (by decide)
      have idle : machine.phase ≠ .waiting := by
        rw [stopping]
        decide
      refine ⟨fun _ => counted.flag idle, fun none => absurd none before, ?_, fun _ => ?_⟩
      · intro _ impossible
        cases impossible
      · exact counted.later (Or.inr ⟨Nat.pos_of_ne_zero before, idle⟩)
    | @core c state os move => exact counted.congr rfl (flags_of_core stepped)

theorem run {actions : List (InterfaceAction κ)} (counted : machine.RunCount count)
    (ran : TransitionSystem.run (interfaceStep files) machine actions = some next) :
    next.RunCount (count + actions.countP InterfaceAction.runs) := by
  induction actions generalizing machine count with
  | nil =>
    cases ran
    exact counted
  | cons action actions ih =>
    obtain ⟨middle, taken, remaining⟩ := run_cons_iff.mp ran
    have onward := ih (counted.step taken) remaining
    rwa [Nat.add_assoc, Nat.add_comm (if action.runs then 1 else 0), ← List.countP_cons] at onward

omit [DecidableEq κ] [Fintype κ] in
/-- In the first call of `run` the scheduler does what it should. -/
theorem runsScheduled (counted : machine.RunCount count) (once : count ≤ 1) : machine.RunsScheduled := by
  have running : machine.phase = .waiting → machine.os.scheduler.running = true := by
    intro waiting
    refine counted.first ?_ waiting
    have some : count ≠ 0 := fun none => absurd ((counted.fresh none).1.symm.trans waiting) (by decide)
    omega
  refine ⟨running, fun waiting p process found ready queued scheduler table => ?_⟩
  exact PreemptiveScheduler.acquireProcess_ne_none (running waiting)
    (List.mem_of_getElem? found) ready queued scheduler table

end RunCount

omit [DecidableEq κ] [Fintype κ] in
/-- The second call of `run` in a list of actions that has one. -/
theorem exists_second_run {actions : List (InterfaceAction κ)} (twice : 2 ≤ actions.countP InterfaceAction.runs) :
    ∃ before after, actions = before ++ .machine .start :: after ∧ 1 ≤ before.countP InterfaceAction.runs := by
  have isStart : ∀ action : InterfaceAction κ, action.runs = true → action = .machine .start := by
    intro action runs
    cases action with
    | stop => cases runs
    | machine action =>
      cases action with
      | start => rfl
      | load | step | stop | join | core => cases runs
  induction actions with
  | nil => cases twice
  | cons action actions ih =>
    cases first : action.runs with
    | true =>
      rw [List.countP_cons, first] at twice
      obtain ⟨second, listed, runs⟩ := List.countP_pos_iff.mp (by simp only [if_true] at twice; omega :
        0 < actions.countP InterfaceAction.runs)
      obtain ⟨before, after, same⟩ := List.append_of_mem listed
      refine ⟨action :: before, after, ?_, ?_⟩
      · rw [same, isStart second runs, List.cons_append]
      · rw [List.countP_cons, first]
        simp
    | false =>
      rw [List.countP_cons_of_neg (by rw [first]; decide)] at twice
      obtain ⟨before, after, same, once⟩ := ih twice
      refine ⟨action :: before, after, by rw [same, List.cons_append], ?_⟩
      rwa [List.countP_cons_of_neg (by rw [first]; decide)]

/-- Over a sequence of calls the scheduler is in its running state whenever a
call of `run` waits exactly when `run` is called no more than once: its `stop`
ends the scheduler for good, which nothing starts again. -/
theorem runs_scheduled_iff {quantum : Nat} {input : List Word} {actions : List (InterfaceAction κ)}
    (ran : TransitionSystem.run (interfaceStep files) (boot quantum input) actions = some machine) :
    (∀ before reached, before <+: actions →
        TransitionSystem.run (interfaceStep files) (boot quantum input) before = some reached → reached.RunsScheduled) ↔
      actions.countP InterfaceAction.runs ≤ 1 := by
  have counted : ∀ {before : List (InterfaceAction κ)} {reached : Machine κ},
      TransitionSystem.run (interfaceStep files) (boot quantum input) before = some reached →
      reached.RunCount (before.countP InterfaceAction.runs) := by
    intro before reached arrived
    have reachedCount := (RunCount.boot quantum input).run arrived
    rwa [Nat.zero_add] at reachedCount
  constructor
  · intro scheduled
    by_contra many
    obtain ⟨before, after, rfl, once⟩ := exists_second_run (by omega : 2 ≤ actions.countP InterfaceAction.runs)
    obtain ⟨middle, arrived, onward⟩ := run_append_iff.mp ran
    obtain ⟨started, taken, -⟩ := run_cons_iff.mp onward
    have reached : TransitionSystem.run (interfaceStep files) (boot quantum input) (before ++ [.machine .start]) =
        some started := run_append_iff.mpr ⟨middle, arrived, run_cons_iff.mpr ⟨started, taken, rfl⟩⟩
    have again := (counted reached).later (Or.inl (by
      rw [List.countP_append]
      simp only [List.countP_cons, List.countP_nil, InterfaceAction.runs, if_true]
      omega))
    have waiting : started.phase = .waiting := by
      have stepped : middle.step files .start = some started := taken
      cases step_move stepped with
      | start idle => rfl
    have running := (scheduled _ started (by simp) reached).running waiting
    rw [again] at running
    cases running
  · intro once before reached earlier arrived
    have fewer : before.countP InterfaceAction.runs ≤ actions.countP InterfaceAction.runs := earlier.sublist.countP_le
    exact (counted arrived).runsScheduled (fewer.trans once)

/-- A program is run to its end, with a call of `stop` after it. -/
def runOnce : List (InterfaceAction (Fin 1)) :=
  [.machine (.load haltSource), .machine .start, .machine (.core onlyCore), .machine (.core onlyCore),
    .machine (.core onlyCore), .machine (.core onlyCore), .machine .stop, .machine (.core onlyCore), .machine .join,
      .stop]

theorem runs_scheduled_runOnce :
    ∃ machine : Machine (Fin 1), TransitionSystem.run (interfaceStep oneFile) (boot 100 []) runOnce = some machine ∧
      ∀ before reached, before <+: runOnce →
        TransitionSystem.run (interfaceStep oneFile) (boot 100 []) before = some reached → reached.RunsScheduled := by
  have enabled : (TransitionSystem.run (interfaceStep oneFile) (boot 100 []) runOnce).isSome = true := by decide +kernel
  obtain ⟨machine, ran⟩ := Option.isSome_iff_exists.mp enabled
  exact ⟨machine, ran, (runs_scheduled_iff ran).mpr (by decide)⟩

/-- A second program is loaded and run after the first one. -/
def runTwice : List (InterfaceAction (Fin 1)) := runOnce ++ [.machine (.load haltSource), .machine .start]

/-- In the second call of `run` the core is sent away, with a ready process queued. -/
theorem runs_scheduled_fails_for_runTwice :
    ¬ ∀ (quantum : Nat) (input : List Word) (files : FileSystem) (actions : List (InterfaceAction (Fin 1)))
      (machine : Machine (Fin 1)),
        TransitionSystem.run (interfaceStep files) (boot quantum input) actions = some machine →
          machine.RunsScheduled := by
  intro scheduled
  have checked : (TransitionSystem.run (interfaceStep oneFile) (boot 100 []) runTwice).any
    (fun machine : Machine (Fin 1) =>
      decide (machine.phase = .waiting) && (machine.process? 1).any (fun process => process.state == .Ready &&
        decide (process.id ∈ machine.os.scheduler.readyQueue)) && !machine.os.scheduler.running) = true := by
    decide +kernel
  obtain ⟨machine, ran, facts⟩ := (Option.any_eq_true _ _).mp checked
  simp only [Bool.and_eq_true, decide_eq_true_eq, Bool.not_eq_true'] at facts
  obtain ⟨⟨waiting, queued⟩, stopped⟩ := facts
  obtain ⟨process, found, here⟩ := (Option.any_eq_true _ _).mp queued
  simp only [Bool.and_eq_true, decide_eq_true_eq, beq_iff_eq] at here
  have refused : machine.os.scheduler.acquireProcess machine.os.processTable =
      some (none, machine.os.scheduler, machine.os.processTable) := by
    rw [PreemptiveScheduler.acquireProcess, if_neg (fun waits => by rw [stopped] at waits; cases waits.1),
      if_pos stopped]
  exact (scheduled 100 [] oneFile runTwice machine ran).acquires waiting 1 process found here.1 here.2 _ _ refused

end Machine

end VirtualMachine
