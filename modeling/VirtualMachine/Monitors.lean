import VirtualMachine.Library.ConditionVariable
import VirtualMachine.NoDeadlock

namespace VirtualMachine

open TransitionSystem

namespace CoreLoop

/-- The next step of the core locks `mutex_` and notifies `cv_`. -/
def notifies (stopRequested : Bool) (os : VirtualOS) : CoreState → Bool
  | .idle => !stopRequested
  | .loading _ _ .ready => true
  | .releasing p preempt => (os.process? p).any (fun process => preempt || process.state == .Halted)
  | .notifying => true
  | _ => false

/-- The core is about to release its process and to call `onProcessHalted_` then. -/
def reports (os : VirtualOS) : CoreState → Bool
  | .executed p result =>
    (os.process? p).any (fun process => result == .Halt || process.context.halted || result == .Error)
  | _ => false

end CoreLoop

structure Monitors (κ : Type) where
  machine : Machine κ
  cv : κ → WaitState := fun _ => .outside
  shutdownCv : WaitState := .outside
  /-- The core has yet to call `onProcessHalted_`. -/
  reporting : κ → Bool := fun _ => false

/-- The next step of a thread, or a wake-up for no reason. -/
inductive ThreadAction (κ : Type)
  | machine (action : Action κ)
  | wake (c : κ)
  | wakeCaller

namespace Monitors

variable {κ : Type}

/-- Some core may lock `mutex_`. -/
def MutexFree (threads : Monitors κ) : Prop := ∀ c, threads.cv c ≠ .tested

instance [Fintype κ] (threads : Monitors κ) : Decidable threads.MutexFree :=
  inferInstanceAs (Decidable (∀ c, threads.cv c ≠ .tested))

/-- The core is on its way into `acquireProcess`, or in it. -/
def Acquires (threads : Monitors κ) (c : κ) : Prop :=
  threads.machine.cores c = .seeking ∧ ¬ (threads.machine.stopRequested = true ∧ threads.cv c = .outside)

instance (threads : Monitors κ) (c : κ) : Decidable (threads.Acquires c) := inferInstanceAs (Decidable (_ ∧ _))

def notifies (threads : Monitors κ) (c : κ) : Bool :=
  CoreLoop.notifies threads.machine.stopRequested threads.machine.os (threads.machine.cores c)

/-- There is nothing for a core to take, and the scheduler has not been stopped. -/
def NothingToTake (os : VirtualOS) : Prop := os.scheduler.running = true ∧ os.scheduler.readyQueue = []

instance (os : VirtualOS) : Decidable (NothingToTake os) := inferInstanceAs (Decidable (_ ∧ _))

variable [DecidableEq κ]

/-- `notifyPossibleShutdown`. -/
def report (threads : Monitors κ) (c : κ) : Option (Monitors κ) :=
  if threads.shutdownCv = .tested then none
  else
    some { threads with
      shutdownCv := if threads.machine.os.processTable.allHalted then threads.shutdownCv.notify else threads.shutdownCv
      reporting := Function.update threads.reporting c false }

/-- The threads after a step of a core that is not in a wait any more. -/
def afterCore (threads : Monitors κ) (c : κ) (machine : Machine κ) : Monitors κ :=
  { threads with
    machine := machine
    cv := if threads.notifies c then fun d => (threads.cv d).notify else Function.update threads.cv c .outside
    reporting :=
      if CoreLoop.reports threads.machine.os (threads.machine.cores c) then Function.update threads.reporting c true
      else threads.reporting }

variable [Fintype κ]

/-- A step of a core that does not sleep. -/
def coreStep (files : FileSystem) (threads : Monitors κ) (c : κ) : Option (Monitors κ) :=
  if threads.reporting c = true ∧ threads.machine.cores c = .seeking then threads.report c
  else if (threads.Acquires c ∨ threads.notifies c = true) ∧ ¬ threads.MutexFree then none
  else if threads.Acquires c ∧ NothingToTake threads.machine.os then
    some { threads with cv := Function.update threads.cv c .tested }
  else (threads.machine.step files (.core c)).map (threads.afterCore c)

/-- A step of the caller of `run`, from the start of the cores to the call of `stop`. -/
def callerStep (files : FileSystem) (threads : Monitors κ) : Option (Monitors κ) :=
  if threads.machine.phase ≠ .waiting then none
  else if threads.machine.os.processTable.allHalted then
    (threads.machine.step files .stop).map (fun machine =>
      { threads with machine := machine, cv := fun c => (threads.cv c).notify, shutdownCv := .outside })
  else some { threads with shutdownCv := .tested }

def step (files : FileSystem) (threads : Monitors κ) (action : ThreadAction κ) : Option (Monitors κ) :=
  if threads.machine.terminated then none
  else
    match action with
    | .machine (.core c) =>
      match threads.cv c with
      | .tested => some { threads with cv := Function.update threads.cv c .asleep }
      | .asleep => none
      | _ => threads.coreStep files c
    | .machine .stop =>
      match threads.shutdownCv with
      | .tested => some { threads with shutdownCv := .asleep }
      | .asleep => none
      | _ => threads.callerStep files
    | .machine .start => (threads.machine.step files .start).map (fun machine => { machine := machine })
    | .machine action => (threads.machine.step files action).map (fun machine => { threads with machine := machine })
    | .wake c =>
      if threads.cv c = .asleep then some { threads with cv := Function.update threads.cv c .woken } else none
    | .wakeCaller => if threads.shutdownCv = .asleep then some { threads with shutdownCv := .woken } else none

/-- A machine as the constructor leaves it, with no thread but that of the caller. -/
def boot (quantum : Nat) (input : List Word) : Monitors κ := { machine := Machine.boot quantum input }

abbrev run (files : FileSystem) (threads : Monitors κ) (actions : List (ThreadAction κ)) : Option (Monitors κ) :=
  TransitionSystem.run (step files) threads actions

end Monitors

/-- The actions by what they do. -/
inductive ThreadMove {κ : Type} [DecidableEq κ] [Fintype κ] (files : FileSystem) (threads : Monitors κ) :
    ThreadAction κ → Monitors κ → Prop
  | call {action machine} (other : ∀ c, action ≠ .core c) (goesOn : action ≠ .stop ∧ action ≠ .start)
      (taken : threads.machine.step files action = some machine) :
      ThreadMove files threads (.machine action) { threads with machine := machine }
  | start {machine} (taken : threads.machine.step files .start = some machine) :
      ThreadMove files threads (.machine .start) { machine := machine }
  | core {c machine} (awake : ¬ (threads.cv c).Blocked)
      (called : ¬ (threads.reporting c = true ∧ threads.machine.cores c = .seeking))
      (free : threads.notifies c = true → threads.MutexFree)
      (finds : threads.Acquires c → ¬ Monitors.NothingToTake threads.machine.os)
      (taken : threads.machine.step files (.core c) = some machine) :
      ThreadMove files threads (.machine (.core c)) (threads.afterCore c machine)
  | test {c} (awake : ¬ (threads.cv c).Blocked) (quiet : threads.reporting c = false) (acquires : threads.Acquires c)
      (nothing : Monitors.NothingToTake threads.machine.os) :
      ThreadMove files threads (.machine (.core c)) { threads with cv := Function.update threads.cv c .tested }
  | sleep {c} (tested : threads.cv c = .tested) :
      ThreadMove files threads (.machine (.core c)) { threads with cv := Function.update threads.cv c .asleep }
  | report {c} (awake : ¬ (threads.cv c).Blocked)
      (calls : threads.reporting c = true ∧ threads.machine.cores c = .seeking) (free : threads.shutdownCv ≠ .tested) :
      ThreadMove files threads (.machine (.core c))
        { threads with
          shutdownCv := if threads.machine.os.processTable.allHalted then threads.shutdownCv.notify
            else threads.shutdownCv
          reporting := Function.update threads.reporting c false }
  | stop {machine} (awake : ¬ threads.shutdownCv.Blocked) (taken : threads.machine.step files .stop = some machine) :
      ThreadMove files threads (.machine .stop)
        { threads with machine := machine, cv := fun c => (threads.cv c).notify, shutdownCv := .outside }
  | testCaller (awake : ¬ threads.shutdownCv.Blocked) (waiting : threads.machine.phase = .waiting)
      (goes : ¬ threads.machine.os.processTable.allHalted = true) :
      ThreadMove files threads (.machine .stop) { threads with shutdownCv := .tested }
  | sleepCaller (tested : threads.shutdownCv = .tested) :
      ThreadMove files threads (.machine .stop) { threads with shutdownCv := .asleep }
  | wake {c} (asleep : threads.cv c = .asleep) :
      ThreadMove files threads (.wake c) { threads with cv := Function.update threads.cv c .woken }
  | wakeCaller (asleep : threads.shutdownCv = .asleep) :
      ThreadMove files threads .wakeCaller { threads with shutdownCv := .woken }

namespace Monitors

variable {κ : Type} [DecidableEq κ] [Fintype κ] {files : FileSystem} {threads next : Monitors κ}
  {action : ThreadAction κ} {c : κ}

theorem coreStep_move (awake : ¬ (threads.cv c).Blocked) (taken : threads.coreStep files c = some next) :
    ThreadMove files threads (.machine (.core c)) next := by
  unfold coreStep at taken
  split at taken
  · rename_i calls
    obtain ⟨free, same⟩ := Option.ite_none_left_eq_some.mp taken
    cases same
    exact .report awake calls free
  · rename_i called
    split at taken
    · cases taken
    · rename_i locks
      have free : threads.notifies c = true → threads.MutexFree :=
        fun notifies => by_contra fun locked => locks ⟨Or.inr notifies, locked⟩
      split at taken
      · rename_i waits
        cases taken
        have quiet : threads.reporting c = false := by
          cases reporting : threads.reporting c with
          | false => rfl
          | true => exact absurd ⟨reporting, waits.1.1⟩ called
        exact .test awake quiet waits.1 waits.2
      · rename_i finds
        obtain ⟨machine, moved, rfl⟩ := Option.map_eq_some_iff.mp taken
        exact .core awake called free (fun acquires nothing => finds ⟨acquires, nothing⟩) moved

theorem callerStep_move (awake : ¬ threads.shutdownCv.Blocked) (taken : threads.callerStep files = some next) :
    ThreadMove files threads (.machine .stop) next := by
  unfold callerStep at taken
  split at taken
  · cases taken
  · rename_i waiting
    split at taken
    · obtain ⟨machine, moved, rfl⟩ := Option.map_eq_some_iff.mp taken
      exact .stop awake moved
    · rename_i goes
      cases taken
      exact .testCaller awake (not_not.mp waiting) goes

/-- Everything the threads can do in one step. -/
theorem step_move (taken : threads.step files action = some next) : ThreadMove files threads action next := by
  unfold step at taken
  split at taken
  · cases taken
  · split at taken
    · rename_i c
      split at taken
      · rename_i tested
        cases taken
        exact .sleep tested
      · cases taken
      · rename_i notTested notAsleep
        refine coreStep_move (fun blocked => ?_) taken
        cases state : threads.cv c with
        | outside | woken => rw [state] at blocked; exact blocked
        | tested => exact notTested state
        | asleep => exact notAsleep state
    · split at taken
      · rename_i tested
        cases taken
        exact .sleepCaller tested
      · cases taken
      · rename_i notTested notAsleep
        refine callerStep_move (fun blocked => ?_) taken
        cases state : threads.shutdownCv with
        | outside | woken => rw [state] at blocked; exact blocked
        | tested => exact notTested state
        | asleep => exact notAsleep state
    · obtain ⟨machine, moved, rfl⟩ := Option.map_eq_some_iff.mp taken
      exact .start moved
    · rename_i action notCore notStop notStart
      obtain ⟨machine, moved, rfl⟩ := Option.map_eq_some_iff.mp taken
      exact .call notCore ⟨notStop, notStart⟩ moved
    · obtain ⟨asleep, same⟩ := Option.ite_none_right_eq_some.mp taken
      cases same
      exact .wake asleep
    · obtain ⟨asleep, same⟩ := Option.ite_none_right_eq_some.mp taken
      cases same
      exact .wakeCaller asleep

/-- A step of a thread is a step of the machine, or the machine stays as it is. -/
theorem step_machine (taken : threads.step files action = some next) :
    next.machine = threads.machine ∨ ∃ a, action = .machine a ∧ threads.machine.step files a = some next.machine := by
  cases step_move taken with
  | call other goesOn moved => exact Or.inr ⟨_, rfl, moved⟩
  | start moved => exact Or.inr ⟨_, rfl, moved⟩
  | core awake called free finds moved => exact Or.inr ⟨_, rfl, moved⟩
  | stop awake moved => exact Or.inr ⟨_, rfl, moved⟩
  | test | sleep | report | testCaller | sleepCaller | wake | wakeCaller => exact Or.inl rfl

/-- The step of the machine that the action may be leaves behind no process that runs without a core. -/
def Unstranding (files : FileSystem) (threads : Monitors κ) : ThreadAction κ → Prop
  | .machine action => threads.machine.Unstranding files action
  | .wake _ | .wakeCaller => True

instance (files : FileSystem) (threads : Monitors κ) :
    (action : ThreadAction κ) → Decidable (threads.Unstranding files action)
  | .machine action => inferInstanceAs (Decidable (threads.machine.Unstranding files action))
  | .wake _ | .wakeCaller => isTrue trivial

/-- Whatever the threads do, the machine makes a run of its own. -/
theorem run_machine {actions : List (ThreadAction κ)}
    (guarded : Guarded (step files) (Unstranding files) threads actions)
    (ran : run files threads actions = some next) :
    ∃ actions', Guarded (Machine.step files) (Machine.Unstranding files) threads.machine actions' ∧
      Machine.run files threads.machine actions' = some next.machine := by
  have shows : ∀ (threads : Monitors κ) action next, threads.Unstranding files action →
    threads.step files action = some next →
      next.machine = threads.machine ∨
        ∃ a, threads.machine.Unstranding files a ∧ threads.machine.step files a = some next.machine := ?_
  · exact run_refines shows guarded ran
  intro threads action next unstranding taken
  rcases step_machine taken with same | ⟨a, rfl, moved⟩
  · exact Or.inl same
  · exact Or.inr ⟨a, unstranding, moved⟩

end Monitors

end VirtualMachine
