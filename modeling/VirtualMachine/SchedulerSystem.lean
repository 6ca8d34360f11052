import VirtualMachine.Library.Fifo
import VirtualMachine.Library.TransitionSystem
import VirtualMachine.Os.ReadyQueue

namespace VirtualMachine

open TransitionSystem

/-- `onCoreIdle`. -/
def VirtualOS.onCoreIdle (os : VirtualOS) : VirtualOS := os.notifyProcessReady

/-- The scheduler of a machine between its atomic operations, with the process
each core holds. -/
structure SchedulerSystem (κ : Type) where
  os : VirtualOS
  held : κ → Option ProcessRef := fun _ => none

inductive SchedulerOperation (κ : Type)
  /-- A program is loaded: emplaced, set to `Ready` and announced. -/
  | load (physical : PhysicalMemory) (layout : MemoryRegionLayout)
  | notifyProcessReady
  | onCoreIdle (c : κ)
  /-- A core without a process takes one. -/
  | acquireProcess (c : κ)
  /-- A core preempts the process it holds. -/
  | onPreempt (c : κ)
  /-- The process that a core holds is halted, and the core lets it go. -/
  | halt (c : κ)

/-- The operation is an acquisition. -/
def SchedulerOperation.acquires {κ : Type} : SchedulerOperation κ → Bool
  | .acquireProcess _ => true
  | _ => false

namespace SchedulerSystem

variable {κ : Type}

/-- A machine with no process yet. -/
def boot (quantum : Nat) (input : List Word) : SchedulerSystem κ := { os := VirtualOS.create quantum input }

def queue (system : SchedulerSystem κ) : List ProcessId := system.os.scheduler.readyQueue

section Steps

variable [DecidableEq κ]

/-- An acquisition takes place when it no longer waits. -/
def acquire (system : SchedulerSystem κ) (c : κ) : Option (SchedulerSystem κ) :=
  (system.os.scheduler.acquireProcess system.os.processTable).map (fun (found, scheduler, table) =>
    { os := { system.os with scheduler := scheduler, processTable := table }
      held := Function.update system.held c found })

def preempt (system : SchedulerSystem κ) (c : κ) (p : ProcessRef) : SchedulerSystem κ :=
  let (scheduler, table) := system.os.scheduler.onPreempt system.os.processTable p
  { os := { system.os with scheduler := scheduler, processTable := table }
    held := Function.update system.held c none }

def step (system : SchedulerSystem κ) : SchedulerOperation κ → Option (SchedulerSystem κ)
  | .load physical layout => some { system with os := system.os.published physical layout }
  | .notifyProcessReady => some { system with os := system.os.notifyProcessReady }
  | .onCoreIdle _ => some { system with os := system.os.onCoreIdle }
  | .acquireProcess c => if system.held c = none then system.acquire c else none
  | .onPreempt c => (system.held c).map (fun p => system.preempt c p)
  | .halt c =>
    (system.held c).map (fun p =>
      { os := (system.os.setState p .Halted).notifyProcessReady
        held := Function.update system.held c none })

/-- The id of the process that an acquisition has returned to its core. -/
def returned? (next : SchedulerSystem κ) : SchedulerOperation κ → Option ProcessId
  | .acquireProcess c => (next.held c).bind (fun p => (next.os.process? p).map (fun process => process.id))
  | _ => none

/-- The ids that the acquisitions of a run return, in turn. -/
def acquired (system : SchedulerSystem κ) : List (SchedulerOperation κ) → List ProcessId
  | [] => []
  | operation :: rest =>
    match system.step operation with
    | none => []
    | some next => (next.returned? operation).toList ++ next.acquired rest

end Steps

/-- The running processes are those the cores hold, and no two cores hold the same. -/
structure HoldersExact (system : SchedulerSystem κ) : Prop where
  running : ∀ c p, system.held c = some p → system.os.stateOf p = some .Running
  holder : ∀ p, system.os.stateOf p = some .Running → ∃ c, system.held c = some p
  exclusive : ∀ c d p, system.held c = some p → system.held d = some p → c = d

/-- The joint invariant of the states, the queue and the holders. -/
structure Exact (system : SchedulerSystem κ) : Prop extends HoldersExact system where
  queued : system.os.QueueExact
  enabled : system.os.scheduler.running = true

/-- What an operation does to the queue: an acquisition takes the first id,
which is that of the process returned, and the others append. -/
inductive QueueMove (system next : SchedulerSystem κ) : SchedulerOperation κ → Prop
  | acquired {c : κ} {p : ProcessRef} (held : next.held c = some p) (front : system.queue = (p + 1) :: next.queue) :
      QueueMove system next (.acquireProcess c)
  | appended {operation : SchedulerOperation κ} (other : operation.acquires = false) {added : List ProcessId}
      (queue : next.queue = system.queue ++ added) : QueueMove system next operation

variable {system next : SchedulerSystem κ} {operation : SchedulerOperation κ} {c : κ} {p : ProcessRef}

namespace HoldersExact

/-- Nothing that is running has changed. -/
theorem congr (holders : system.HoldersExact) {os : VirtualOS}
    (same : ∀ q, os.stateOf q = some .Running ↔ system.os.stateOf q = some .Running) :
    ({ system with os := os } : SchedulerSystem κ).HoldersExact where
  running d q held := (same q).mpr (holders.running d q held)
  holder q running := holders.holder q ((same q).mp running)
  exclusive := holders.exclusive

variable [DecidableEq κ]

/-- A core takes a process that has not been running. -/
theorem take (holders : system.HoldersExact) {os : VirtualOS} (free : system.held c = none)
    (before : system.os.stateOf p ≠ some .Running) (after : os.stateOf p = some .Running)
    (others : ∀ q, q ≠ p → os.stateOf q = system.os.stateOf q) :
    ({ os := os, held := Function.update system.held c (some p) } : SchedulerSystem κ).HoldersExact where
  running := by
    intro d q held
    by_cases mine : d = c
    · subst mine
      obtain rfl : p = q := by simpa using held
      exact after
    · have old : system.held d = some q := by simpa [mine] using held
      have differ : q ≠ p := by
        rintro rfl
        exact before (holders.running d q old)
      rw [others q differ]
      exact holders.running d q old
  holder := by
    intro q running
    by_cases same : q = p
    · subst same
      exact ⟨c, by simp⟩
    · rw [others q same] at running
      obtain ⟨d, held⟩ := holders.holder q running
      have other : d ≠ c := by
        rintro rfl
        rw [free] at held
        cases held
      exact ⟨d, by simpa [other] using held⟩
  exclusive := by
    intro d e q first second
    have mine : ∀ f, Function.update system.held c (some p) f = some q → q = p → f = c := by
      intro f held same
      by_contra other
      have old : system.held f = some q := by simpa [other] using held
      exact before (same ▸ holders.running f q old)
    by_cases same : q = p
    · rw [mine d first same, mine e second same]
    · have old : ∀ f, Function.update system.held c (some p) f = some q → system.held f = some q := by
        intro f held
        by_cases here : f = c
        · subst here
          obtain rfl : p = q := by simpa using held
          exact absurd rfl same
        · simpa [here] using held
      exact holders.exclusive d e q (old d first) (old e second)

/-- A core gives up a process that is no longer running. -/
theorem give (holders : system.HoldersExact) {os : VirtualOS} (holds : system.held c = some p)
    (after : os.stateOf p ≠ some .Running) (others : ∀ q, q ≠ p → os.stateOf q = system.os.stateOf q) :
    ({ os := os, held := Function.update system.held c none } : SchedulerSystem κ).HoldersExact := by
  have old : ∀ d q, Function.update system.held c none d = some q → system.held d = some q ∧ q ≠ p := by
    intro d q held
    have other : d ≠ c := by
      rintro rfl
      simp at held
    have before : system.held d = some q := by simpa [other] using held
    refine ⟨before, ?_⟩
    rintro rfl
    exact other (holders.exclusive d c q before holds)
  refine ⟨?_, ?_, ?_⟩
  · intro d q held
    obtain ⟨before, differ⟩ := old d q held
    rw [others q differ]
    exact holders.running d q before
  · intro q running
    have differ : q ≠ p := by
      rintro rfl
      exact after running
    rw [others q differ] at running
    obtain ⟨d, held⟩ := holders.holder q running
    have other : d ≠ c := by
      rintro rfl
      rw [holds] at held
      cases held
      exact differ rfl
    exact ⟨d, by simpa [other] using held⟩
  · intro d e q first second
    exact holders.exclusive d e q (old d q first).1 (old e q second).1

end HoldersExact

namespace Exact

theorem boot (quantum : Nat) (input : List Word) : (SchedulerSystem.boot quantum input : SchedulerSystem κ).Exact where
  running := by
    intro c p held
    cases held
  holder := by
    intro p running
    cases running
  exclusive := by
    intro c d p held
    cases held
  queued := .create quantum input
  enabled := rfl

theorem stateOf_published (os : VirtualOS) (physical : PhysicalMemory) (layout : MemoryRegionLayout) (q : ProcessRef) :
    (os.published physical layout).stateOf q = some .Running ↔ os.stateOf q = some .Running := by
  have notified : (os.published physical layout).stateOf q =
      ((os.emplaced physical layout).setState os.processTable.processes.length .Ready).stateOf q := rfl
  rw [notified]
  by_cases new : q = os.processTable.processes.length
  · subst new
    rw [VirtualOS.stateOf_setState_same .Ready (os.process?_emplaced_new physical layout)]
    constructor
    · intro ready
      cases ready
    · intro running
      obtain ⟨process, found, -⟩ := VirtualOS.stateOf_eq_some.mp running
      exact absurd (VirtualOS.lt_length_of_process? found) (Nat.lt_irrefl _)
  · rw [VirtualOS.stateOf_setState_other .Ready new]
    by_cases old : q < os.processTable.processes.length
    · rw [VirtualOS.stateOf, os.process?_emplaced_old physical layout old, VirtualOS.stateOf]
    · have absent : ∀ {after : VirtualOS}, after.processTable.processes.length ≤ q →
        after.stateOf q ≠ some .Running := by
        intro after beyond running
        obtain ⟨process, found, -⟩ := VirtualOS.stateOf_eq_some.mp running
        exact Nat.not_lt.mpr beyond (VirtualOS.lt_length_of_process? found)
      refine iff_of_false (absent ?_) (absent (Nat.le_of_not_lt old))
      rw [VirtualOS.length_emplaced]
      exact Nat.lt_of_le_of_ne (Nat.le_of_not_lt old) (Ne.symm new)

/-- Every operation keeps the invariant, and the queue moves as it says. -/
theorem step [DecidableEq κ] (exact : system.Exact) (taken : system.step operation = some next) :
    next.Exact ∧ QueueMove system next operation := by
  cases operation with
  | load physical layout =>
    cases taken
    obtain ⟨queued, added, queue⟩ := exact.queued.toQueueSound.published physical layout
    refine ⟨⟨?_, queued, exact.enabled⟩, .appended rfl queue⟩
    exact exact.toHoldersExact.congr (stateOf_published _ physical layout)
  | notifyProcessReady =>
    cases taken
    obtain ⟨queued, added, queue⟩ := exact.queued.toQueueSound.notify
    exact ⟨⟨exact.toHoldersExact.congr fun _ => Iff.rfl, queued, exact.enabled⟩, .appended rfl queue⟩
  | onCoreIdle c =>
    cases taken
    obtain ⟨queued, added, queue⟩ := exact.queued.toQueueSound.notify
    exact ⟨⟨exact.toHoldersExact.congr fun _ => Iff.rfl, queued, exact.enabled⟩, .appended rfl queue⟩
  | acquireProcess c =>
    obtain ⟨free, acquired⟩ := Option.ite_none_right_eq_some.mp taken
    obtain ⟨⟨found, scheduler, table⟩, returned, rfl⟩ := Option.map_eq_some_iff.mp acquired
    cases front : system.os.scheduler.readyQueue with
    | nil =>
      rw [PreemptiveScheduler.acquireProcess, if_pos ⟨exact.enabled, front⟩] at returned
      cases returned
    | cons id rest =>
      obtain ⟨p, rfl, ready, same⟩ := exact.queued.toQueueSound.acquire exact.enabled front
      rw [same] at returned
      cases returned
      obtain ⟨-, running, others⟩ := exact.queued.toQueueSound.dispatched front
      refine ⟨⟨?_, exact.queued.dispatched front, exact.enabled⟩, .acquired (by simp) front⟩
      exact exact.toHoldersExact.take free (by rw [ready]; decide) running others
  | onPreempt c =>
    obtain ⟨p, holds, rfl⟩ := Option.map_eq_some_iff.mp taken
    have running := exact.running c p holds
    obtain ⟨process, found, state⟩ := VirtualOS.stateOf_eq_some.mp running
    have number := exact.queued.ids p process found
    rw [preempt, PreemptiveScheduler.onPreempt_running found state, number]
    refine ⟨⟨?_, exact.queued.preempted running, exact.enabled⟩, .appended rfl rfl⟩
    have ready : (system.os.setState p .Ready).stateOf p = some .Ready := VirtualOS.stateOf_setState_same .Ready found
    have stopped : (system.os.setState p .Ready).stateOf p ≠ some .Running := by
      rw [ready]
      decide
    exact exact.toHoldersExact.give holds stopped (fun q other => VirtualOS.stateOf_setState_other .Ready other)
  | halt c =>
    obtain ⟨p, holds, rfl⟩ := Option.map_eq_some_iff.mp taken
    have running := exact.running c p holds
    obtain ⟨process, found, state⟩ := VirtualOS.stateOf_eq_some.mp running
    obtain ⟨queued, added, queue⟩ := exact.queued.toQueueSound.halted running
    refine ⟨⟨?_, queued, exact.enabled⟩, .appended rfl queue⟩
    have halted : (system.os.setState p .Halted).stateOf p = some .Halted :=
      VirtualOS.stateOf_setState_same .Halted found
    have stopped : (system.os.setState p .Halted).stateOf p ≠ some .Running := by
      rw [halted]
      decide
    exact exact.toHoldersExact.give holds stopped (fun q other => VirtualOS.stateOf_setState_other .Halted other)

end Exact

variable [DecidableEq κ]

theorem exact_of_run {quantum : Nat} {input : List Word} {operations : List (SchedulerOperation κ)}
    (ran : run step (boot quantum input) operations = some system) : system.Exact :=
  run_invariant_of_step (fun _ _ _ exact taken => (exact.step taken).1) (Exact.boot quantum input) ran

/-- What the ready queue of a machine promises about its processes and to its cores. -/
structure ReadyQueueExact (system : SchedulerSystem κ) : Prop where
  ready : ∀ p process, system.os.process? p = some process → process.state = .Ready → system.queue.count process.id = 1
  only : ∀ id ∈ system.queue, ∃ p process, system.os.process? p = some process ∧ process.id = id ∧
    process.state = .Ready
  running : ∀ p process, system.os.process? p = some process → process.state = .Running → ∃! c, system.held c = some p
  acquires : system.queue ≠ [] → ∃ p scheduler table,
    system.os.scheduler.acquireProcess system.os.processTable = some (some p, scheduler, table)
  noFallback : (PreemptiveScheduler.takeQueued system.os.processTable system.queue).1 = none →
    system.os.scheduler.scanReady system.os.processTable = none

/-- The ready queue is exact after any sequence of atomic operations: every ready
process is in it once and nothing else is, every running process has one core, and
the scan behind the queue never finds anything. -/
theorem ready_queue_exact {quantum : Nat} {input : List Word} {operations : List (SchedulerOperation κ)}
    (ran : run step (boot quantum input) operations = some system) : system.ReadyQueueExact := by
  have exact := exact_of_run ran
  have queued : ∀ p process, system.os.process? p = some process → process.state = .Ready →
    process.id ∈ system.queue := by
    intro p process found ready
    rw [exact.queued.ids p process found]
    exact exact.queued.complete p (VirtualOS.stateOf_eq_some.mpr ⟨process, found, ready⟩)
  refine ⟨?_, ?_, ?_, ?_, ?_⟩
  · intro p process found ready
    have nodup : system.queue.Nodup := exact.queued.nodup
    rw [nodup.count, if_pos (queued p process found ready)]
  · intro id member
    obtain ⟨p, rfl, ready⟩ := exact.queued.ready id member
    obtain ⟨process, found, state⟩ := VirtualOS.stateOf_eq_some.mp ready
    exact ⟨p, process, found, exact.queued.ids p process found, state⟩
  · intro p process found state
    obtain ⟨c, held⟩ := exact.holder p (VirtualOS.stateOf_eq_some.mpr ⟨process, found, state⟩)
    exact ⟨c, held, fun d also => exact.exclusive d c p also held⟩
  · intro nonempty
    obtain ⟨id, rest, front⟩ := List.exists_cons_of_ne_nil nonempty
    obtain ⟨p, -, -, acquired⟩ := exact.queued.toQueueSound.acquire exact.enabled front
    exact ⟨p, _, _, acquired⟩
  · intro exhausted
    apply PreemptiveScheduler.scanReady_none
    intro p process found ready
    -- A queue that is not empty yields its first process, so this one is empty.
    cases front : system.queue with
    | nil =>
      have member := queued p process found ready
      rw [front] at member
      cases member
    | cons id rest =>
      obtain ⟨q, rfl, state⟩ := exact.queued.ready id (by rw [← queue, front]; exact List.mem_cons_self)
      obtain ⟨first, here, firstReady⟩ := VirtualOS.stateOf_eq_some.mp state
      obtain ⟨taken, block, taking, -⟩ := PreemptiveScheduler.takeQueued_front rest (List.mem_of_getElem? here)
        (exact.queued.ids q first here) firstReady
      rw [front, taking] at exhausted
      cases exhausted

/-- Two processes on two cores; the first one is preempted and the second one halts. -/
def preemptAndHalt : List (SchedulerOperation Bool) :=
  [.load {} {}, .load {} {}, .acquireProcess false, .acquireProcess true, .onPreempt false, .notifyProcessReady,
    .halt true]

theorem ready_queue_exact_preemptAndHalt :
    ∃ system : SchedulerSystem Bool, run step (boot 100 []) preemptAndHalt = some system ∧ system.queue = [1] ∧
      system.ReadyQueueExact := by
  have queues : (run step (boot 100 []) preemptAndHalt).map queue = some [1] := by decide +kernel
  obtain ⟨system, ran, queue⟩ := Option.map_eq_some_iff.mp queues
  exact ⟨system, ran, queue, ready_queue_exact ran⟩

/-- The queue of the scheduler is a queue: the ids that leave it are those the
acquisitions return, one for each. -/
theorem Exact.run_fifo {operations : List (SchedulerOperation κ)} (exact : system.Exact)
    (ran : run SchedulerSystem.step system operations = some next) :
    Fifo.Run system.queue (system.acquired operations) next.queue ∧
      (system.acquired operations).length = operations.countP SchedulerOperation.acquires := by
  induction operations generalizing system with
  | nil =>
    cases ran
    exact ⟨.done _, rfl⟩
  | cons operation operations ih =>
    obtain ⟨middle, taken, remaining⟩ := run_cons_iff.mp ran
    obtain ⟨kept, move⟩ := exact.step taken
    obtain ⟨rest, count⟩ := ih kept remaining
    rw [acquired, taken]
    dsimp only
    cases move with
    | @acquired c p held front =>
      obtain ⟨process, found, -⟩ := VirtualOS.stateOf_eq_some.mp (kept.running c p held)
      have returned : middle.returned? (.acquireProcess c) = some (p + 1) := by
        rw [returned?, held, Option.bind_some, found, Option.map_some, kept.queued.ids p process found]
      rw [returned, front]
      refine ⟨.dequeue rest, ?_⟩
      rw [List.countP_cons_of_pos rfl, ← count]
      rfl
    | @appended _ other added queue =>
      have returned : middle.returned? operation = none := by
        cases operation with
        | acquireProcess c => cases other
        | load | notifyProcessReady | onCoreIdle | onPreempt | halt => rfl
      rw [returned, List.countP_cons_of_neg (by rw [other]; decide)]
      rw [queue] at rest
      exact ⟨.enqueue added rest, count⟩

/-- The order in which processes become ready is the order in which they are
acquired, over any run: nobody who joins the queue overtakes a process that is
waiting in it, and a ready process is acquired once those ahead of it are. -/
theorem round_robin {quantum : Nat} {input : List Word} {operations : List (SchedulerOperation κ)}
    (ran : run step (boot quantum input) operations = some system) :
    (∀ (operation : SchedulerOperation κ) (next : SchedulerSystem κ) (first second : ProcessId), system.step operation =
      some next → first ∈ system.queue →
        second ∉ system.queue → second ∈ next.queue →
        ∀ (later : List (SchedulerOperation κ)) (final : SchedulerSystem κ)
          (k : Nat), run step next later = some final → (next.acquired later)[k]? = some second →
          ∃ j < k, (next.acquired later)[j]? = some first) ∧
      (∀ first second : ProcessId, first ∈ system.queue → system.queue.idxOf first < system.queue.idxOf second →
        ∀ (later : List (SchedulerOperation κ)) (final : SchedulerSystem κ)
          (k : Nat), run step system later = some final →
          (system.acquired later)[k]? = some second → ∃ j < k, (system.acquired later)[j]? = some first) ∧
      ∀ p process, system.os.process? p = some process → process.state = .Ready →
        ∀ (later : List (SchedulerOperation κ)) (final : SchedulerSystem κ), run step system later = some final →
          system.queue.idxOf process.id < later.countP SchedulerOperation.acquires →
          (system.acquired later)[system.queue.idxOf process.id]? = some process.id := by
  have exact := exact_of_run ran
  refine ⟨?_, ?_, ?_⟩
  · intro operation next first second taken waiting absent joined later final k remaining left
    obtain ⟨kept, move⟩ := exact.step taken
    obtain ⟨fifo, -⟩ := kept.run_fifo remaining
    cases move with
    | acquired held front =>
      rw [front] at absent
      exact absurd (List.mem_cons_of_mem _ joined) absent
    | appended other queue =>
      rw [queue] at fifo
      exact fifo.no_overtaking waiting absent left
  · intro first second waiting ahead later final k remaining left
    obtain ⟨fifo, -⟩ := exact.run_fifo remaining
    have bound := List.idxOf_lt_length_of_mem waiting
    refine fifo.ahead_first (i := system.queue.idxOf first) ?_ ?_ left
    · rw [List.getElem?_eq_getElem bound, List.getElem_idxOf]
    · intro j below here
      obtain ⟨inside, same⟩ := List.getElem?_eq_some_iff.mp here
      have early : j < system.queue.findIdx (fun id => id == second) := Nat.lt_of_le_of_lt below ahead
      have differ := List.not_of_lt_findIdx early
      simp [same] at differ
  · intro p process found ready later final remaining reached
    have member : process.id ∈ system.queue := by
      rw [exact.queued.ids p process found]
      exact exact.queued.complete p (VirtualOS.stateOf_eq_some.mpr ⟨process, found, ready⟩)
    have bound := List.idxOf_lt_length_of_mem member
    obtain ⟨fifo, count⟩ := exact.run_fifo remaining
    rw [fifo.getElem?_dequeued bound (by rw [count]; exact reached), List.getElem?_eq_getElem bound, List.getElem_idxOf]

/-- The first of two processes is preempted while the second one waits; the
next two acquisitions return the second one and then the first. -/
theorem round_robin_preempted :
    ∃ (system next : SchedulerSystem Bool),
      run step (boot 100 []) [.load {} {}, .load {} {}, .acquireProcess false] = some system ∧
      system.step (.onPreempt false) = some next ∧
      next.acquired [.acquireProcess true, .acquireProcess false] = [2, 1] ∧
      ∃ j < 1, (next.acquired [.acquireProcess true, .acquireProcess false])[j]? = some 2 := by
  have checked : (run step (boot 100 []) [.load {} {}, .load {} {}, .acquireProcess false]).any
      (fun system : SchedulerSystem Bool => (system.step (.onPreempt false)).any (fun next =>
        decide (system.queue = [2] ∧ next.queue = [2, 1] ∧
          next.acquired [.acquireProcess true, .acquireProcess false] = [2, 1]) &&
        (run step next [.acquireProcess true, .acquireProcess false]).isSome)) = true := by decide +kernel
  obtain ⟨system, ran, more⟩ := (Option.any_eq_true _ _).mp checked
  obtain ⟨next, taken, facts⟩ := (Option.any_eq_true _ _).mp more
  rw [Bool.and_eq_true, decide_eq_true_eq] at facts
  obtain ⟨⟨before, after, acquired⟩, onward⟩ := facts
  obtain ⟨final, remaining⟩ := Option.isSome_iff_exists.mp onward
  refine ⟨system, next, ran, taken, acquired, ?_⟩
  exact (round_robin ran).1 _ next 2 1 taken (by rw [before]; decide) (by rw [before]; decide) (by rw [after]; decide)
    _ final 1 remaining (by rw [acquired]; rfl)

end SchedulerSystem

end VirtualMachine
