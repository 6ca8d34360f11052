import VirtualMachine.Os.VirtualOS

namespace VirtualMachine

/-- The steps of a load system call that are still to come once the new
process is in the table. -/
inductive LoadStage
  | emplaced
  | ready
  deriving DecidableEq, Repr

/-- Where a core stands in `coreLoop`, between two of its atomic steps. -/
inductive CoreState
  /-- The top of the loop, with no process. -/
  | seeking
  /-- `acquireProcess` has returned `nullptr`. -/
  | idle
  /-- The top of the loop, with a process. -/
  | holding (p : ProcessRef)
  /-- In the load callback of an instruction of `p`. -/
  | loading (p child : ProcessRef) (stage : LoadStage)
  /-- `executeInstruction` has returned. -/
  | executed (p : ProcessRef) (result : ExecutionResult)
  /-- In `releaseProcess`, before the state is looked at. -/
  | releasing (p : ProcessRef) (preempt : Bool)
  /-- In `releaseProcess`, the state written, before `notifyProcessReady`. -/
  | notifying
  /-- The thread has left the loop, or was not started. -/
  | exited
  /-- An exception has left the loop, which ends the whole program. -/
  | terminated
  deriving DecidableEq, Repr

/-- The process a core holds, from its acquisition to the write that gives it up. -/
def CoreState.held : CoreState → Option ProcessRef
  | holding p => some p
  | loading p _ _ => some p
  | executed p _ => some p
  | releasing p _ => some p
  | _ => none

namespace CoreLoop

/-- `acquireProcess`; no step while it waits. -/
def acquire (os : VirtualOS) : Option (CoreState × VirtualOS) :=
  match os.scheduler.acquireProcess os.processTable with
  | none => none
  | some (found, scheduler, table) =>
    let os := { os with scheduler := scheduler, processTable := table }
    match found with
    | none => some (.idle, os)
    | some p => some (.holding p, os)

/-- The first step of a load system call: the file is read and assembled, its
image loaded and the process emplaced. -/
def startLoad (files : FileSystem) (os : VirtualOS) (p : ProcessRef) (path : List Byte) : CoreState × VirtualOS :=
  match os.emplaceFile files path with
  | (.error _, os) => (.terminated, os)
  | (.ok child, os) => (.loading p child .emplaced, os)

/-- One `executeInstruction`; a load system call leaves its later steps open. -/
def execute (files : FileSystem) (os : VirtualOS) (p : ProcessRef) (process : ProcessControlBlock) :
    CoreState × VirtualOS :=
  match os.beginInstruction p process with
  | (.error _, os) => (.terminated, os)
  | (.ok (.finished result), os) => (.executed p result, os)
  | (.ok (.loading path), os) => startLoad files os p path

/-- What `coreLoop` does with the result of `executeInstruction`. -/
def dispose (os : VirtualOS) (p : ProcessRef) (process : ProcessControlBlock) (result : ExecutionResult) :
    CoreState × VirtualOS :=
  if result = .Halt ∨ process.context.halted = true then
    (.releasing p false, os.setState p .Halted)
  else if result = .Error then
    (.releasing p false, os.modifyProcess p (fun process => (process.setState .Halted).setHalted true))
  else if result = .Yield ∨ process.context.shouldYield = true then
    (.releasing p true, os.modifyProcess p (fun process => process.setShouldYield false))
  else if process.context.timeSliceLeft = 0 then (.releasing p true, os)
  else (.holding p, os)

/-- `releaseProcess`. -/
def release (os : VirtualOS) (p : ProcessRef) (process : ProcessControlBlock) (preempt : Bool) :
    CoreState × VirtualOS :=
  if preempt = true ∧ process.state ≠ .Halted then
    let (scheduler, table) := os.scheduler.onPreempt os.processTable p
    (.seeking, { os with scheduler := scheduler, processTable := table })
  else if process.state ≠ .Halted then (.notifying, os.setState p .Ready)
  else (.seeking, os.notifyProcessReady)

/-- The next atomic step of a core. -/
def step (files : FileSystem) (stopRequested : Bool) (os : VirtualOS) : CoreState → Option (CoreState × VirtualOS)
  | .seeking => if stopRequested then some (.exited, os) else acquire os
  | .idle => if stopRequested then some (.exited, os) else some (.seeking, os.notifyProcessReady)
  | .holding p =>
    if stopRequested then some (.exited, os)
    else
      (os.process? p).map (fun process =>
        if process.context.halted = true ∨ process.state = .Halted then (.releasing p false, os)
        else execute files os p process)
  | .loading p child .emplaced => some (.loading p child .ready, os.setState child .Ready)
  | .loading p _ .ready => some (.executed p .Continue, os.notifyProcessReady.finishLoad p)
  | .executed p result => (os.process? p).map (fun process => dispose os p process result)
  | .releasing p preempt => (os.process? p).map (fun process => release os p process preempt)
  | .notifying => some (.seeking, os.notifyProcessReady)
  | .exited => none
  | .terminated => none

/-- The end of `releaseProcess`, after which the core has no process. -/
def finishRelease : CoreState × VirtualOS → Except Exception (Option ProcessRef) × VirtualOS
  | (.notifying, os) => (.ok none, os.notifyProcessReady)
  | (_, os) => (.ok none, os)

/-- The rest of a round, once the result of an instruction has been looked at. -/
def finishRound : CoreState × VirtualOS → Except Exception (Option ProcessRef) × VirtualOS
  | (.releasing p preempt, os) =>
    match os.process? p with
    | none => (.ok none, os)
    | some process => finishRelease (release os p process preempt)
  | (state, os) => (.ok state.held, os)

/-- What `coreLoop` does once `executeInstruction` has returned or thrown. -/
def finishInstruction (p : ProcessRef) :
    Except Exception ExecutionResult × VirtualOS → Except Exception (Option ProcessRef) × VirtualOS
  | (.error e, os) => (.error e, os)
  | (.ok result, os) =>
    match os.process? p with
    | none => (.ok none, os)
    | some process => finishRound (dispose os p process result)

/-- One round of `coreLoop` with a process, on a machine where nothing else
happens meanwhile. The result is the process the core keeps, if any. -/
def iteration (files : FileSystem) (os : VirtualOS) (p : ProcessRef) (process : ProcessControlBlock) :
    Except Exception (Option ProcessRef) × VirtualOS :=
  if process.context.halted = true ∨ process.state = .Halted then finishRelease (release os p process false)
  else finishInstruction p (os.executeInstruction files p process)

section Release

variable {os : VirtualOS} {p : ProcessRef} {process : ProcessControlBlock}

theorem release_halted (preempt : Bool) (halted : process.state = .Halted) :
    release os p process preempt = (.seeking, os.notifyProcessReady) := by
  simp [release, halted]

theorem release_giveBack (alive : process.state ≠ .Halted) :
    release os p process false = (.notifying, os.setState p .Ready) := by
  simp [release, alive]

theorem release_preempt (found : os.process? p = some process) (running : process.state = .Running) :
    release os p process true =
      (.seeking, { os.setState p .Ready with
        scheduler := { os.scheduler with readyQueue := os.scheduler.readyQueue ++ [process.id] } }) := by
  rw [release, PreemptiveScheduler.onPreempt_running found running]
  simp only [running]
  rfl

theorem release_ready (found : os.process? p = some process) (ready : process.state = .Ready) :
    release os p process true = (.seeking, os) := by
  rw [release, PreemptiveScheduler.onPreempt_other found (by rw [ready]; decide)]
  simp only [ready]
  rfl

end Release

end CoreLoop

end VirtualMachine
