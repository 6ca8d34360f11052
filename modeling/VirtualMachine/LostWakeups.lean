import VirtualMachine.Monitors
import VirtualMachine.Restart

namespace VirtualMachine

open TransitionSystem Machine

/-- The core has an instruction behind it and has not looked at its result. -/
def CoreState.Executed : CoreState → Prop
  | .executed _ _ => True
  | _ => False

namespace CoreLoop

variable {files : FileSystem} {stopRequested : Bool} {os after : VirtualOS} {state next : CoreState}

/-- Only a core that acquires a process, or that notifies, changes the queue. -/
theorem step_scheduler (taken : step files stopRequested os state = some (next, after))
    (quiet : notifies stopRequested os state = false) (stays : state = .seeking → stopRequested = true) :
    after.scheduler = os.scheduler := by
  have loud : ∀ {p : ProcessRef} {process : ProcessControlBlock} {preempt : Bool}, os.process? p = some process →
      (preempt || process.state == .Halted) = true → notifies stopRequested os (.releasing p preempt) = true := by
    intro p process preempt found holds
    rw [notifies, found]
    exact holds
  cases step_move taken with
  | starve | acquire =>
    rw [step, if_pos (stays rfl)] at taken
    cases taken
  | look =>
    rw [step, if_pos (by simpa [notifies] using quiet)] at taken
    cases taken
  | leave | discard | throw | finish | loadFails | emplace | publish | halt | fail | yield | expire | keep | pass
  | giveBack => rfl
  | finishLoad | announce => cases quiet
  | preempt found => cases (loud found rfl).symm.trans quiet
  | @drop p process preempt found halted =>
    cases (loud found (by rw [halted]; exact Bool.or_true preempt)).symm.trans quiet

/-- After the instruction that has halted the last process, its core reports. -/
theorem reports_of_allHalted {p : ProcessRef} {result : ExecutionResult}
    (taken : step files stopRequested os (.executed p result) = some (next, after))
    (consistent : (CoreState.executed p result).Consistent os) (halted : after.processTable.allHalted = true) :
    reports os (.executed p result) = true := by
  obtain ⟨process, found, state⟩ := consistent
  have all := ProcessTable.allHalted_iff.mp halted
  rw [reports, found]
  have goes : process.context.halted = false → ∀ {f : ProcessControlBlock → ProcessControlBlock},
      (f process).state = process.state → (os.modifyProcess p f).processTable.allHalted = true → False := by
    intro alive f keeps halted
    have there : (os.modifyProcess p f).process? p = some (f process) := by
      rw [VirtualOS.process?_modifyProcess_same, found]
      rfl
    rcases state with running | ⟨-, flag⟩
    · exact absurd ((keeps.trans running).symm.trans (ProcessTable.allHalted_iff.mp halted p _ there)) (by decide)
    · rw [alive] at flag
      cases flag
  have runs : process.context.halted = false → os.processTable.allHalted = true → False := by
    intro alive halted
    rcases state with running | ⟨-, flag⟩
    · exact absurd (running.symm.trans (ProcessTable.allHalted_iff.mp halted p process found)) (by decide)
    · rw [alive] at flag
      cases flag
  cases step_move taken with
  | leave stop top => rcases top with same | same | ⟨q, same⟩ <;> cases same
  | halt here ended =>
    cases found.symm.trans here
    rcases ended with rfl | flag
    · rfl
    · simp [flag]
  | fail => simp
  | yield here alive =>
    cases found.symm.trans here
    exact (goes alive rfl halted).elim
  | expire here alive =>
    cases found.symm.trans here
    exact (runs alive halted).elim
  | keep here alive =>
    cases found.symm.trans here
    exact (runs alive halted).elim

end CoreLoop

namespace CoreMove

variable {files : FileSystem} {stopRequested : Bool} {os after : VirtualOS} {state next : CoreState}

/-- A process halts by an instruction, or when the result of one is looked at. -/
theorem allHalted_before (move : CoreMove files stopRequested os state next after) (lives : next ≠ .terminated)
    (before : ¬ state.Executed) (behind : ¬ next.Executed) (halted : after.processTable.allHalted = true) :
    os.processTable.allHalted = true := by
  have all := ProcessTable.allHalted_iff.mp halted
  have written : ∀ {p : ProcessRef} {process : ProcessControlBlock} {f : ProcessControlBlock → ProcessControlBlock},
      os.process? p = some process → (f process).state ≠ .Halted →
        (os.modifyProcess p f).processTable.allHalted = true → False := by
    intro p process f found alive halted
    have there : (os.modifyProcess p f).process? p = some (f process) := by
      rw [VirtualOS.process?_modifyProcess_same, found]
      rfl
    exact alive (ProcessTable.allHalted_iff.mp halted p _ there)
  cases move with
  | leave | starve | look | discard | pass | drop | announce => exact halted
  | throw | loadFails => exact absurd rfl lives
  | finish | finishLoad => exact absurd trivial behind
  | halt | fail | yield | expire | keep => exact absurd trivial before
  | acquire scheduler found => exact (written found (by intro impossible; cases impossible) halted).elim
  | preempt found => exact (written found (by intro impossible; cases impossible) halted).elim
  | giveBack found => exact (written found (by intro impossible; cases impossible) halted).elim
  | @emplace p process path source program layout physical =>
    have fresh := all _ _ ((os.update p (os.context process)).process?_emplaced_new physical layout)
    cases fresh
  | @publish p child =>
    cases known : os.process? child with
    | some process => exact (written known (by intro impossible; cases impossible) halted).elim
    | none =>
      refine ProcessTable.allHalted_iff.mpr fun q process found => all q process ?_
      have other : q ≠ child := by
        rintro rfl
        cases known.symm.trans found
      exact (os.process?_setState_other .Ready other).trans found

end CoreMove

namespace Monitors

variable {κ : Type}

/-- No thread sleeps through what it waits for, as long as the machine is not stopped. -/
structure Awake (threads : Monitors κ) : Prop where
  announced : threads.machine.Announced
  inside : ∀ c, threads.cv c ≠ .outside → threads.machine.cores c = .seeking ∧ threads.reporting c = false
  caller : threads.shutdownCv ≠ .outside → threads.machine.phase = .waiting
  watched : threads.machine.phase = .waiting →
    ∀ c, (threads.cv c).Watched (¬ NothingToTake threads.machine.os) False
  reported : threads.machine.terminated = false →
    threads.shutdownCv.Watched (threads.machine.os.processTable.allHalted = true)
      (∃ c, threads.reporting c = true ∨ (threads.machine.cores c).Executed)

namespace Awake

variable {files : FileSystem} {threads next : Monitors κ} {action : ThreadAction κ} {c : κ}

theorem outside_of_ne (awake : threads.Awake) (elsewhere : threads.machine.cores c ≠ .seeking) :
    threads.cv c = .outside :=
  by_contra fun waits => elsewhere (awake.inside c waits).1

theorem caller_outside (awake : threads.Awake) (other : threads.machine.phase ≠ .waiting) :
    threads.shutdownCv = .outside :=
  by_contra fun waits => other (awake.caller waits)

theorem boot [DecidableEq κ] [Fintype κ] (quantum : Nat) (input : List Word) :
    (Monitors.boot quantum input : Monitors κ).Awake where
  announced := .boot quantum input
  inside _ waits := absurd rfl waits
  caller waits := absurd rfl waits
  watched _ _ := .outside
  reported _ := .outside

variable [DecidableEq κ]

/-- A write to the state of one wait. -/
theorem update {state : WaitState} (awake : threads.Awake) (seeking : threads.machine.cores c = .seeking)
    (quiet : threads.reporting c = false)
    (watched : threads.machine.phase = .waiting → state.Watched (¬ NothingToTake threads.machine.os) False) :
    ({ threads with cv := Function.update threads.cv c state } : Monitors κ).Awake where
  announced := awake.announced
  inside := by
    intro d waits
    by_cases same : d = c
    · subst same
      exact ⟨seeking, quiet⟩
    · exact awake.inside d (fun outside => waits ((Function.update_of_ne same ..).trans outside))
  caller := awake.caller
  watched := by
    intro waiting d
    by_cases same : d = c
    · subst same
      dsimp only
      rw [Function.update_self]
      exact watched waiting
    · dsimp only
      rw [Function.update_of_ne same]
      exact awake.watched waiting d
  reported := awake.reported

variable [Fintype κ]

/-- A step of a core that does not sleep. -/
theorem core {machine : Machine κ} (awake : threads.Awake) (announced : machine.Announced)
    (free : threads.notifies c = true → threads.MutexFree)
    (finds : threads.Acquires c → ¬ NothingToTake threads.machine.os)
    (taken : threads.machine.step files (.core c) = some machine) : (threads.afterCore c machine).Awake := by
  have moved := Machine.core_step taken
  have move := CoreLoop.step_move moved
  have phase : machine.phase = threads.machine.phase := by
    cases Machine.step_move taken with
    | core => rfl
  have elsewhere : ∀ d, d ≠ c → machine.cores d = threads.machine.cores d := fun d => Machine.cores_step_other taken
  have notifiesElsewhere : threads.notifies c = true → threads.cv c = .outside := by
    intro notifies
    refine awake.outside_of_ne fun seeking => ?_
    rw [Monitors.notifies, seeking] at notifies
    cases notifies
  have reporting : ∀ d, (threads.reporting d = true → (threads.afterCore c machine).reporting d = true) ∧
      (d ≠ c → (threads.afterCore c machine).reporting d = threads.reporting d) := by
    intro d
    unfold afterCore
    dsimp only
    split
    · by_cases same : d = c
      · subst same
        exact ⟨fun _ => Function.update_self .., fun other => absurd rfl other⟩
      · rw [Function.update_of_ne same]
        exact ⟨id, fun _ => rfl⟩
    · exact ⟨id, fun _ => rfl⟩
  have waits : ∀ d, (threads.afterCore c machine).cv d ≠ .outside → d ≠ c ∧ threads.cv d ≠ .outside := by
    intro d
    unfold afterCore
    dsimp only
    split
    · rename_i notifies
      intro still
      have before : threads.cv d ≠ .outside := fun outside => still (WaitState.notify_eq_outside.mpr outside)
      refine ⟨?_, before⟩
      rintro rfl
      exact before (notifiesElsewhere notifies)
    · intro still
      by_cases same : d = c
      · subst same
        exact absurd (Function.update_self ..) still
      · rw [Function.update_of_ne same] at still
        exact ⟨same, still⟩
  refine ⟨announced, fun d still => ?_, fun still => phase.trans (awake.caller still), fun waiting d => ?_,
    fun lives => ?_⟩
  · obtain ⟨other, before⟩ := waits d still
    obtain ⟨seeking, quiet⟩ := awake.inside d before
    exact ⟨(elsewhere d other).trans seeking, ((reporting d).2 other).trans quiet⟩
  · have watched := awake.watched (phase.symm.trans waiting)
    unfold afterCore
    dsimp only
    split
    · rename_i notifies
      exact .notify (free notifies d)
    · rename_i quiet
      by_cases same : d = c
      · subst same
        rw [Function.update_self]
        exact .outside
      · rw [Function.update_of_ne same]
        refine (watched d).change fun blocked holds => Or.inl ⟨fun nothing => holds ?_, id⟩
        have stays : threads.machine.cores c = .seeking → threads.machine.stopRequested = true := by
          intro seeking
          by_contra goes
          exact finds ⟨seeking, fun stop => goes stop.1⟩ nothing
        have scheduler : machine.os.scheduler = threads.machine.os.scheduler :=
          CoreLoop.step_scheduler moved (by rwa [Bool.not_eq_true] at quiet) stays
        rw [NothingToTake, scheduler]
        exact nothing
  · refine (awake.reported (Machine.live_of_step taken)).change fun _ halted => ?_
    by_cases executed : (threads.machine.cores c).Executed
    · refine Or.inr ⟨c, Or.inl ?_⟩
      have reports : CoreLoop.reports threads.machine.os (threads.machine.cores c) = true := by
        have consistent := awake.announced.consistent c
        generalize threads.machine.cores c = state at executed moved consistent
        cases state with
        | executed p result => exact CoreLoop.reports_of_allHalted moved consistent halted
        | _ => exact executed.elim
      unfold afterCore
      rw [if_pos reports]
      exact Function.update_self ..
    · by_cases behind : (machine.cores c).Executed
      · exact Or.inr ⟨c, Or.inr behind⟩
      · refine Or.inl ⟨move.allHalted_before ((announced.loops lives c).1) executed behind halted, ?_⟩
        rintro ⟨d, calls | reached⟩
        · exact ⟨d, Or.inl ((reporting d).1 calls)⟩
        · have other : d ≠ c := by
            rintro rfl
            exact executed reached
          exact ⟨d, Or.inr ((congrArg CoreState.Executed (elsewhere d other)).mpr reached)⟩

theorem step (awake : threads.Awake) (unstranding : threads.Unstranding files action)
    (taken : threads.step files action = some next) : next.Awake := by
  have live : threads.machine.terminated = false := by
    cases live : threads.machine.terminated with
    | false => rfl
    | true =>
      unfold Monitors.step at taken
      rw [if_pos live] at taken
      cases taken
  cases step_move taken with
  | @call action machine other goesOn moved =>
    have announced := awake.announced.step unstranding moved live
    have calm : threads.machine.phase ≠ .waiting ∧ machine.phase = .idle ∧
      ∀ c, machine.cores c = threads.machine.cores c := by
      cases Machine.step_move moved with
      | load source idle => exact ⟨by rw [idle]; decide, idle, fun _ => rfl⟩
      | step id steps idle => exact ⟨by rw [idle]; decide, idle, fun _ => rfl⟩
      | join stopping => exact ⟨by rw [stopping]; decide, rfl, fun _ => rfl⟩
      | start => exact absurd rfl goesOn.2
      | stop => exact absurd rfl goesOn.1
      | core c => exact absurd rfl (other c)
    obtain ⟨before, idle, cores⟩ := calm
    have outside := awake.caller_outside before
    refine ⟨announced, fun c waits => ?_, fun waits => absurd outside waits, fun waiting => ?_, fun _ => ?_⟩
    · obtain ⟨seeking, quiet⟩ := awake.inside c waits
      exact ⟨(cores c).trans seeking, quiet⟩
    · exact nomatch idle.symm.trans waiting
    · dsimp only
      rw [outside]
      exact .outside
  | start moved =>
    exact ⟨awake.announced.step unstranding moved live, fun _ waits => absurd rfl waits, fun waits => absurd rfl waits,
      fun _ _ => .outside, fun _ => .outside⟩
  | core unblocked called free finds moved =>
    exact awake.core (awake.announced.step unstranding moved live) free finds moved
  | test unblocked quiet acquires nothing => exact awake.update acquires.1 quiet fun _ => .tested (not_not.mpr nothing)
  | @sleep c tested =>
    obtain ⟨seeking, quiet⟩ := awake.inside c (by rw [tested]; decide)
    refine awake.update seeking quiet fun waiting => .sleep ?_
    have watched := awake.watched waiting c
    rwa [tested] at watched
  | @report c unblocked calls free =>
    refine ⟨awake.announced, fun d waits => ?_, fun waits => ?_, awake.watched, fun _ => ?_⟩
    · obtain ⟨seeking, quiet⟩ := awake.inside d waits
      refine ⟨seeking, ?_⟩
      by_cases same : d = c
      · subst same
        exact Function.update_self ..
      · exact (Function.update_of_ne same ..).trans quiet
    · refine awake.caller fun outside => waits ?_
      dsimp only
      rw [outside]
      split <;> rfl
    · dsimp only
      split
      · exact .notify free
      · rename_i goes
        exact fun _ halted => absurd halted goes
  | @stop machine unblocked moved =>
    have announced := awake.announced.step unstranding moved live
    cases Machine.step_move moved with
    | stop waiting halted =>
      refine ⟨announced, fun c waits => ?_, fun waits => absurd rfl waits, (fun impossible => nomatch impossible),
        fun _ => .outside⟩
      exact awake.inside c fun outside => waits (WaitState.notify_eq_outside.mpr outside)
  | testCaller unblocked waiting goes =>
    exact ⟨awake.announced, awake.inside, fun _ => waiting, awake.watched, fun _ => .tested goes⟩
  | sleepCaller tested =>
    refine ⟨awake.announced, awake.inside, fun _ => awake.caller (by rw [tested]; decide), awake.watched,
      fun lives => .sleep ?_⟩
    have reported := awake.reported lives
    rwa [tested] at reported
  | @wake c asleep =>
    obtain ⟨seeking, quiet⟩ := awake.inside c (by rw [asleep]; decide)
    exact awake.update seeking quiet fun _ => .woken
  | wakeCaller asleep =>
    exact ⟨awake.announced, awake.inside, fun _ => awake.caller (by rw [asleep]; decide), awake.watched,
      fun _ => .woken⟩

end Awake

/-- No thread can take a step by itself. -/
def Stuck [DecidableEq κ] [Fintype κ] (files : FileSystem) (threads : Monitors κ) : Prop :=
  ∀ action, threads.step files (.machine action) = none

/-- Where nobody can take a step, the caller that waits sleeps. -/
theorem Stuck.caller_asleep [DecidableEq κ] [Fintype κ] {files : FileSystem} {threads : Monitors κ}
    (stuck : threads.Stuck files)
    (alive : threads.machine.terminated = false) (waiting : threads.machine.phase = .waiting) :
    threads.shutdownCv = .asleep := by
  have still := stuck .stop
  have goes : threads.callerStep files ≠ none := by
    unfold callerStep
    rw [if_neg (not_not.mpr waiting)]
    split
    · rename_i halted
      rw [Machine.step.eq_def, if_neg (by rw [alive]; decide)]
      simp only [waiting, halted, and_self, if_true]
      exact fun impossible => nomatch impossible
    · exact fun impossible => nomatch impossible
  rw [Monitors.step.eq_def, if_neg (by rw [alive]; decide)] at still
  cases state : threads.shutdownCv with
  | asleep => rfl
  | tested =>
    simp only [state] at still
    cases still
  | outside | woken =>
    simp only [state] at still
    exact absurd still goes

/-- The caller of `run` waits for cores to end that sleep in `acquireProcess`. -/
def StopLost (threads : Monitors κ) : Prop :=
  threads.machine.phase = .stopping ∧ (∀ c, threads.machine.cores c = .exited ∨ threads.cv c = .asleep) ∧
    ∃ c, threads.cv c = .asleep

namespace Awake

variable [DecidableEq κ] [Fintype κ] {files : FileSystem} {threads : Monitors κ} {c : κ}

/-- Where nobody can take a step, each core has ended or sleeps. -/
theorem at_rest (awake : threads.Awake) (alive : threads.machine.terminated = false) (stuck : threads.Stuck files)
    (c : κ) :
    threads.machine.cores c = .exited ∨ threads.cv c = .asleep := by
  have untested : ∀ d, threads.cv d ≠ .tested := by
    intro d tested
    have still := stuck (.core d)
    rw [Monitors.step.eq_def, if_neg (by rw [alive]; decide)] at still
    simp only [tested] at still
    cases still
  have callerUntested : threads.shutdownCv ≠ .tested := by
    intro tested
    have still := stuck .stop
    rw [Monitors.step.eq_def, if_neg (by rw [alive]; decide)] at still
    simp only [tested] at still
    cases still
  by_contra goes
  obtain ⟨loops, notAsleep⟩ := not_or.mp goes
  have stays : threads.coreStep files c = none := by
    have still := stuck (.core c)
    rw [Monitors.step.eq_def, if_neg (by rw [alive]; decide)] at still
    cases state : threads.cv c with
    | tested => exact absurd state (untested c)
    | asleep => exact absurd state notAsleep
    | outside | woken =>
      simp only [state] at still
      exact still
  unfold coreStep at stays
  split at stays
  · rw [report, if_neg callerUntested] at stays
    cases stays
  · rw [if_neg (fun locked => locked.2 untested)] at stays
    split at stays
    · cases stays
    · rename_i finds
      have still := Option.map_eq_none_iff.mp stays
      obtain ⟨state, os, moved⟩ := CoreLoop.exists_step files threads.machine.stopRequested
        (awake.announced.consistent c) ⟨loops, (awake.announced.loops alive c).1⟩ fun seeking => by
          by_cases stop : threads.machine.stopRequested = true
          · exact Or.inl stop
          · have some : ¬ NothingToTake threads.machine.os :=
              fun nothing => finds ⟨⟨seeking, fun told => stop told.1⟩, nothing⟩
            rcases not_and_or.mp some with ended | queued
            · exact Or.inr (Or.inl (Bool.not_eq_true _ ▸ ended))
            · exact Or.inr (Or.inr queued)
      rw [Machine.step.eq_def, if_neg (by rw [alive]; decide)] at still
      simp only [Machine.coreStep, moved] at still
      cases still

/-- As long as the machine is not stopped, somebody can take a step. -/
theorem not_stuck_waiting [Nonempty κ] (awake : threads.Awake) (alive : threads.machine.terminated = false)
    (waiting : threads.machine.phase = .waiting) : ¬ threads.Stuck files := by
  intro stuck
  have asleep : ∀ c, threads.cv c = .asleep := by
    intro c
    exact (awake.at_rest alive stuck c).resolve_left ((awake.announced.loops alive c).2 waiting)
  have inside : ∀ c, threads.machine.cores c = .seeking ∧ threads.reporting c = false :=
    fun c => awake.inside c (by rw [asleep c]; decide)
  obtain ⟨c⟩ := ‹Nonempty κ›
  have nothing : NothingToTake threads.machine.os := by
    by_contra some
    have watched := awake.watched waiting c
    rw [asleep c] at watched
    exact watched trivial some
  have goes : ¬ threads.machine.os.processTable.allHalted = true := by
    intro halted
    have reported := awake.reported alive
    rw [stuck.caller_asleep alive waiting] at reported
    obtain ⟨d, calls | executed⟩ := reported trivial halted
    · exact nomatch (inside d).2.symm.trans calls
    · rw [(inside d).1] at executed
      exact executed
  obtain ⟨p, process, found, notHalted⟩ : ∃ p process, threads.machine.process? p = some process ∧
    process.state ≠ .Halted := by
    by_contra none
    refine goes (ProcessTable.allHalted_iff.mpr fun p process found => ?_)
    exact by_contra fun alive => none ⟨p, process, found, alive⟩
  have free : ∀ d, ¬ threads.machine.Holds d p := by
    intro d holds
    rw [Machine.Holds, (inside d).1] at holds
    cases holds
  have ready := (awake.announced.states alive found).2.1 notHalted free
  rcases awake.announced.announced (by rw [waiting]; decide) p process found ready with queued | ⟨d, announces⟩
  · rw [nothing.2] at queued
    cases queued
  · rw [(inside d).1] at announces
    exact announces

/-- While a call of `run` is under way, the threads are stuck only behind a stop that a core has missed. -/
theorem stuck_iff [Nonempty κ] (awake : threads.Awake) (alive : threads.machine.terminated = false)
    (running : threads.machine.phase ≠ .idle) : threads.Stuck files ↔ threads.StopLost := by
  constructor
  · intro stuck
    have rest := awake.at_rest alive stuck
    cases phase : threads.machine.phase with
    | idle => exact absurd phase running
    | waiting => exact absurd stuck (awake.not_stuck_waiting alive phase)
    | stopping =>
      refine ⟨phase, rest, ?_⟩
      by_contra none
      have exited : ∀ c, threads.machine.cores c = .exited :=
        fun c => (rest c).resolve_right fun asleep => none ⟨c, asleep⟩
      have still := stuck .join
      rw [Monitors.step.eq_def, if_neg (by rw [alive]; decide)] at still
      dsimp only at still
      rw [Machine.step.eq_def, if_neg (by rw [alive]; decide)] at still
      dsimp only at still
      rw [if_pos ⟨phase, exited⟩] at still
      cases still
  · rintro ⟨stopping, rest, c, asleep⟩ action
    cases taken : threads.step files (.machine action) with
    | none => rfl
    | some next =>
      have seeking := (awake.inside c (by rw [asleep]; decide)).1
      cases step_move taken with
      | call other goesOn moved =>
        cases Machine.step_move moved with
        | load source idle => exact nomatch stopping.symm.trans idle
        | step id steps idle => exact nomatch stopping.symm.trans idle
        | start => exact absurd rfl goesOn.2
        | stop => exact absurd rfl goesOn.1
        | join stopping exited => exact nomatch seeking.symm.trans (exited c)
        | core d => exact absurd rfl (other d)
      | start moved =>
        cases Machine.step_move moved with
        | start idle => exact nomatch stopping.symm.trans idle
      | @core d machine unblocked called free finds moved =>
        rcases rest d with exited | sleeps
        · have step := Machine.core_step moved
          rw [exited] at step
          cases step
        · rw [sleeps] at unblocked
          exact absurd trivial unblocked
      | @test d unblocked quiet acquires nothing =>
        rcases rest d with exited | sleeps
        · exact nomatch exited.symm.trans acquires.1
        · rw [sleeps] at unblocked
          exact absurd trivial unblocked
      | @sleep d tested =>
        rcases rest d with exited | sleeps
        · exact nomatch exited.symm.trans (awake.inside d (by rw [tested]; decide)).1
        · exact nomatch tested.symm.trans sleeps
      | @report d unblocked calls free =>
        rcases rest d with exited | sleeps
        · exact nomatch exited.symm.trans calls.2
        · rw [sleeps] at unblocked
          exact absurd trivial unblocked
      | stop unblocked moved =>
        cases Machine.step_move moved with
        | stop waiting => exact nomatch stopping.symm.trans waiting
      | testCaller unblocked waiting => exact nomatch stopping.symm.trans waiting
      | sleepCaller tested => exact nomatch stopping.symm.trans (awake.caller (by rw [tested]; decide))

end Awake

variable [DecidableEq κ] [Fintype κ]

instance (threads : Monitors κ) : Decidable threads.StopLost := inferInstanceAs (Decidable (_ ∧ _ ∧ _))

theorem awake_of_run {quantum : Nat} {input : List Word} {files : FileSystem} {actions : List (ThreadAction κ)}
    {threads : Monitors κ} (guarded : Guarded (step files) (Unstranding files) (boot quantum input) actions)
    (ran : run files (boot quantum input) actions = some threads) : threads.Awake :=
  run_invariant (fun _ _ _ awake unstranding taken => awake.step unstranding taken)
    (Awake.boot quantum input) guarded ran

/-- However the threads interleave and wake up, those of a call of `run` come to a
standstill exactly where the machine has been stopped, each core has ended or sleeps
in `acquireProcess`, and one of them sleeps: the notification of `stop`, which does
not take the lock, has come between its test and its sleep. No call of `step` may
have left a process running, as no core would ever give it back. -/
theorem stuck_iff_stop_lost [Nonempty κ] {quantum : Nat} {input : List Word} {files : FileSystem}
    {actions : List (ThreadAction κ)} {threads : Monitors κ}
    (guarded : Guarded (step files) (Unstranding files) (boot quantum input) actions)
    (ran : run files (boot quantum input) actions = some threads) (alive : threads.machine.terminated = false)
    (running : threads.machine.phase ≠ .idle) : threads.Stuck files ↔ threads.StopLost :=
  (awake_of_run guarded ran).stuck_iff alive running

/-- The caller sleeps until the only core has halted the process, and stops the
machine while that core goes to sleep. -/
def missedStop : List (ThreadAction (Fin 1)) :=
  [.machine (.load haltSource), .machine .start, .machine .stop, .machine .stop] ++
    List.replicate 6 (.machine (.core onlyCore)) ++ [.machine .stop, .machine (.core onlyCore)]

theorem stuck_iff_stop_lost_missedStop :
    ∃ threads : Monitors (Fin 1), run oneFile (boot 100 []) missedStop = some threads ∧ threads.Stuck oneFile := by
  have guarded : Guarded (step oneFile) (Unstranding oneFile) (boot 100 []) missedStop := by decide +kernel
  have lost : (run oneFile (boot 100 []) missedStop).map (fun threads : Monitors (Fin 1) =>
      decide (threads.machine.terminated = false ∧ threads.machine.phase ≠ .idle ∧ threads.StopLost)) = some true := by
    decide +kernel
  obtain ⟨threads, ran, reached⟩ := Option.map_eq_some_iff.mp lost
  obtain ⟨alive, running, lost⟩ := of_decide_eq_true reached
  exact ⟨threads, ran, (stuck_iff_stop_lost guarded ran alive running).mpr lost⟩

/-- The machine is stopped while no core is between its test and its sleep. -/
def StopsInTime (threads : Monitors κ) : ThreadAction κ → Prop
  | .machine .stop =>
    ¬ threads.shutdownCv.Blocked → threads.machine.os.processTable.allHalted = true → threads.MutexFree
  | _ => True

instance (threads : Monitors κ) : (action : ThreadAction κ) → Decidable (threads.StopsInTime action)
  | .machine .stop => inferInstanceAs (Decidable (_ → _ → _))
  | .machine (.load _) | .machine (.step _ _) | .machine .start | .machine .join | .machine (.core _) | .wake _
  | .wakeCaller =>
    isTrue trivial

/-- Once the machine is stopped, no core goes to sleep. -/
def Ends (threads : Monitors κ) : Prop :=
  threads.machine.phase = .stopping → threads.machine.os.scheduler.running = false ∧ ∀ c, ¬ (threads.cv c).Blocked

theorem Ends.step {files : FileSystem} {threads next : Monitors κ} {action : ThreadAction κ} (ends : threads.Ends)
    (inTime : threads.StopsInTime action) (taken : threads.step files action = some next) : next.Ends := by
  intro stopping
  cases step_move taken with
  | @call action machine other goesOn moved =>
    cases Machine.step_move moved with
    | load source idle => exact nomatch idle.symm.trans stopping
    | step id steps idle => exact nomatch idle.symm.trans stopping
    | start => exact absurd rfl goesOn.2
    | stop => exact absurd rfl goesOn.1
    | join => cases stopping
    | core c => exact absurd rfl (other c)
  | start moved =>
    cases Machine.step_move moved with
    | start => cases stopping
  | @core c machine unblocked called free finds moved =>
    have phase : machine.phase = threads.machine.phase := by
      cases Machine.step_move moved with
      | core => rfl
    obtain ⟨ended, calm⟩ := ends (phase.symm.trans stopping)
    refine ⟨(congrArg Prod.snd (Machine.flags_of_core moved)).trans ended, fun d => ?_⟩
    unfold afterCore
    dsimp only
    split
    · exact fun blocked => calm d (WaitState.blocked_of_notify blocked)
    · by_cases same : d = c
      · subst same
        rw [Function.update_self]
        exact id
      · rw [Function.update_of_ne same]
        exact calm d
  | test unblocked quiet acquires nothing => exact nomatch (ends stopping).1.symm.trans nothing.1
  | @sleep c tested =>
    refine absurd ?_ ((ends stopping).2 c)
    rw [tested]
    trivial
  | report => exact ends stopping
  | @stop machine unblocked moved =>
    cases Machine.step_move moved with
    | stop waiting halted =>
      have free : threads.MutexFree := inTime unblocked halted
      exact ⟨rfl, fun c => WaitState.not_blocked_notify (free c)⟩
  | testCaller unblocked waiting => exact nomatch waiting.symm.trans stopping
  | sleepCaller | wakeCaller => exact ends stopping
  | @wake c asleep =>
    obtain ⟨ended, calm⟩ := ends stopping
    refine absurd ?_ (calm c)
    rw [asleep]
    trivial

/-- Where the machine is never stopped while a core is between its test and its
sleep, and no call of `step` has left a process running, the threads of a call of
`run` never come to a standstill. -/
theorem never_stuck [Nonempty κ] {quantum : Nat} {input : List Word} {files : FileSystem}
    {actions : List (ThreadAction κ)}
    {threads : Monitors κ}
    (guarded : Guarded (step files) (fun threads action => threads.Unstranding files action ∧
      threads.StopsInTime action)
      (boot quantum input) actions)
    (ran : run files (boot quantum input) actions = some threads) (alive : threads.machine.terminated = false)
    (running : threads.machine.phase ≠ .idle) : ¬ threads.Stuck files := by
  have kept : ∀ (threads : Monitors κ) action next, threads.Awake ∧ threads.Ends →
      threads.Unstranding files action ∧ threads.StopsInTime action → threads.step files action = some next →
      next.Awake ∧ next.Ends :=
    fun _ _ _ both guard taken => ⟨both.1.step guard.1 taken, both.2.step guard.2 taken⟩
  obtain ⟨awake, ends⟩ := run_invariant kept ⟨Awake.boot quantum input, fun stopping => nomatch stopping⟩ guarded ran
  intro stuck
  obtain ⟨stopping, -, c, asleep⟩ := (awake.stuck_iff alive running).mp stuck
  refine (ends stopping).2 c ?_
  rw [asleep]
  trivial

/-- The caller stops the machine before the only core comes back to `acquireProcess`. -/
def stopInTime : List (ThreadAction (Fin 1)) :=
  [.machine (.load haltSource), .machine .start, .machine .stop, .machine .stop] ++
    List.replicate 5 (.machine (.core onlyCore)) ++ [.machine .stop]

theorem never_stuck_stopInTime :
    ∃ threads : Monitors (Fin 1), run oneFile (boot 100 []) stopInTime = some threads ∧
      threads.machine.phase = .stopping ∧ ¬ threads.Stuck oneFile := by
  have guarded : Guarded (step oneFile)
      (fun threads action => threads.Unstranding oneFile action ∧ threads.StopsInTime action)
        (boot 100 []) stopInTime := by
    decide +kernel
  have stopped : (run oneFile (boot 100 []) stopInTime).map (fun threads : Monitors (Fin 1) =>
      decide (threads.machine.terminated = false ∧ threads.machine.phase = .stopping)) = some true := by
    decide +kernel
  obtain ⟨threads, ran, reached⟩ := Option.map_eq_some_iff.mp stopped
  obtain ⟨alive, stopping⟩ := of_decide_eq_true reached
  exact ⟨threads, ran, stopping, never_stuck guarded ran alive (by rw [stopping]; decide)⟩

end Monitors

end VirtualMachine
