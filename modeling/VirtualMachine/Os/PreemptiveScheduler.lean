import VirtualMachine.Process.ProcessControlBlock

namespace VirtualMachine

/-- The scheduler without its reference to the process table, which its
functions take as an argument. -/
structure PreemptiveScheduler where
  quantum : Nat
  readyQueue : List ProcessId := []
  roundRobinIndex : Nat := 0
  running : Bool := true
  deriving DecidableEq, Repr

namespace PreemptiveScheduler

/-- One process of the loop in `notifyProcessReady`. -/
def enqueueReady (readyQueue : List ProcessId) (process : ProcessControlBlock) : List ProcessId :=
  if process.state = .Ready ∧ process.id ∉ readyQueue then readyQueue ++ [process.id] else readyQueue

/-- Every ready process is put at the end of the queue unless it is there, in the
order of the table. -/
def notifyProcessReady (scheduler : PreemptiveScheduler) (table : ProcessTable) : PreemptiveScheduler :=
  { scheduler with readyQueue := table.processes.foldl enqueueReady scheduler.readyQueue }

/-- Unlike `notifyProcessReady` this does not look whether the process is in the
queue already. -/
def onPreempt (scheduler : PreemptiveScheduler) (table : ProcessTable) (p : ProcessRef) :
    PreemptiveScheduler × ProcessTable :=
  match table.processes[p]? with
  | none => (scheduler, table)
  | some process =>
    if process.state = .Running then
      ({ scheduler with readyQueue := scheduler.readyQueue ++ [process.id] },
        table.modify p (fun process => process.setState .Ready))
    else (scheduler, table)

/-- The loop that pops ids until one belongs to a ready process. -/
def takeQueued (table : ProcessTable) : List ProcessId → Option ProcessRef × List ProcessId
  | [] => (none, [])
  | id :: rest =>
    match table.processes.findIdx? (fun process => process.id == id && process.state == .Ready) with
    | some p => (some p, rest)
    | none => takeQueued table rest

/-- The fallback scan from `roundRobinIndex_` on. -/
def scanReady (scheduler : PreemptiveScheduler) (table : ProcessTable) : Option ProcessRef :=
  ((List.range table.processes.length).map
    (fun i => (scheduler.roundRobinIndex + i) % table.processes.length)).find?
    (fun index => (table.processes[index]?).any (fun process => process.state == .Ready))

def dispatch (scheduler : PreemptiveScheduler) (table : ProcessTable) (p : ProcessRef) : ProcessTable :=
  table.modify p (fun process => (process.setState .Running).resetTimeSlice scheduler.quantum)

def pickNextProcess (scheduler : PreemptiveScheduler) (table : ProcessTable) :
    Option ProcessRef × PreemptiveScheduler × ProcessTable :=
  match takeQueued table scheduler.readyQueue with
  | (some p, rest) => (some p, { scheduler with readyQueue := rest }, scheduler.dispatch table p)
  | (none, rest) =>
    match scheduler.scanReady table with
    | some p =>
      (some p, { scheduler with readyQueue := rest, roundRobinIndex := p + 1 }, scheduler.dispatch table p)
    | none => (none, { scheduler with readyQueue := rest }, table)

/-- `none` while the condition variable waits; otherwise the process returned,
which is itself `none` for `nullptr`. -/
def acquireProcess (scheduler : PreemptiveScheduler) (table : ProcessTable) :
    Option (Option ProcessRef × PreemptiveScheduler × ProcessTable) :=
  if scheduler.running = true ∧ scheduler.readyQueue = [] then none
  else if scheduler.running = false then some (none, scheduler, table)
  else some (scheduler.pickNextProcess table)

def stop (scheduler : PreemptiveScheduler) : PreemptiveScheduler := { scheduler with running := false }

variable {scheduler : PreemptiveScheduler} {table : ProcessTable} {p : ProcessRef} {process : ProcessControlBlock}

/-- A running process becomes ready and goes to the end of the queue. -/
theorem onPreempt_running (found : table.processes[p]? = some process) (running : process.state = .Running) :
    scheduler.onPreempt table p =
      ({ scheduler with readyQueue := scheduler.readyQueue ++ [process.id] },
        table.modify p (fun process => process.setState .Ready)) := by
  rw [onPreempt, found]
  dsimp only
  rw [if_pos running]

/-- For any other one the call does nothing. -/
theorem onPreempt_other (found : table.processes[p]? = some process) (other : process.state ≠ .Running) :
    scheduler.onPreempt table p = (scheduler, table) := by
  rw [onPreempt, found]
  dsimp only
  rw [if_neg other]

/-- What is taken from the queue is ready. -/
theorem takeQueued_ready {queue rest : List ProcessId} (taken : takeQueued table queue = (some p, rest)) :
    ∃ process, table.processes[p]? = some process ∧ process.state = .Ready := by
  induction queue with
  | nil => cases taken
  | cons id queue ih =>
    unfold takeQueued at taken
    split at taken
    · rename_i q found
      cases taken
      obtain ⟨bound, matched, -⟩ := List.findIdx?_eq_some_iff_getElem.mp found
      exact ⟨_, List.getElem?_eq_getElem bound, by simp only [Bool.and_eq_true, beq_iff_eq] at matched; exact matched.2⟩
    · exact ih taken

theorem scanReady_ready (found : scheduler.scanReady table = some p) :
    ∃ process, table.processes[p]? = some process ∧ process.state = .Ready := by
  have ready := List.find?_some found
  cases here : table.processes[p]? with
  | none => simp [here] at ready
  | some process => exact ⟨process, rfl, by simpa [here] using ready⟩

/-- Everything `acquireProcess` can return; it never changes the quantum, or
whether the scheduler runs. -/
theorem acquireProcess_cases {found : Option ProcessRef} {next : PreemptiveScheduler} {after : ProcessTable}
    (acquired : scheduler.acquireProcess table = some (found, next, after)) :
    (next.quantum = scheduler.quantum ∧ next.running = scheduler.running) ∧
      (found = none ∧ after = table ∨ ∃ p process, found = some p ∧ table.processes[p]? = some process ∧
        process.state = .Ready ∧ after = scheduler.dispatch table p) := by
  unfold acquireProcess pickNextProcess at acquired
  split at acquired
  · cases acquired
  · split at acquired
    · cases acquired
      exact ⟨⟨rfl, rfl⟩, Or.inl ⟨rfl, rfl⟩⟩
    · split at acquired
      · rename_i q rest taken
        cases acquired
        obtain ⟨process, here, ready⟩ := takeQueued_ready taken
        exact ⟨⟨rfl, rfl⟩, Or.inr ⟨q, process, rfl, here, ready, rfl⟩⟩
      · split at acquired
        · rename_i q scanned
          cases acquired
          obtain ⟨process, here, ready⟩ := scanReady_ready scanned
          exact ⟨⟨rfl, rfl⟩, Or.inr ⟨q, process, rfl, here, ready, rfl⟩⟩
        · cases acquired
          exact ⟨⟨rfl, rfl⟩, Or.inl ⟨rfl, rfl⟩⟩

/-- Only a ready process is ever handed out, and it is running from then on. -/
theorem acquireProcess_some {next : PreemptiveScheduler} {after : ProcessTable}
    (acquired : scheduler.acquireProcess table = some (some p, next, after)) :
    ∃ process, table.processes[p]? = some process ∧ process.state = .Ready ∧ after = scheduler.dispatch table p := by
  rcases (acquireProcess_cases acquired).2 with ⟨impossible, -⟩ | ⟨q, process, same, found⟩
  · cases impossible
  · cases same
    exact ⟨process, found⟩

/-- A call that returns without a process changes no process. -/
theorem acquireProcess_none {next : PreemptiveScheduler} {after : ProcessTable}
    (acquired : scheduler.acquireProcess table = some (none, next, after)) : after = table := by
  rcases (acquireProcess_cases acquired).2 with ⟨-, same⟩ | ⟨q, process, impossible, -⟩
  · exact same
  · cases impossible

end PreemptiveScheduler

end VirtualMachine
