import VirtualMachine.Os.Execution

namespace VirtualMachine

namespace PreemptiveScheduler

variable {table : ProcessTable} {scheduler next : PreemptiveScheduler} {process : ProcessControlBlock}

theorem enqueueReady_eq (queue : List ProcessId) (process : ProcessControlBlock) :
    ∃ added, enqueueReady queue process = queue ++ added ∧ added.Nodup ∧
      ∀ id, id ∈ added ↔ id = process.id ∧ process.state = .Ready ∧ id ∉ queue := by
  unfold enqueueReady
  split
  · rename_i joins
    refine ⟨[process.id], rfl, by simp, fun id => ?_⟩
    rw [List.mem_singleton]
    constructor
    · rintro rfl
      exact ⟨rfl, joins⟩
    · exact fun same => same.1
  · rename_i stays
    refine ⟨[], (List.append_nil queue).symm, .nil, fun id => ?_⟩
    constructor
    · intro impossible
      cases impossible
    · rintro ⟨rfl, joins⟩
      exact absurd joins stays

/-- The loop of `notifyProcessReady` appends the ready ids that are missing. -/
theorem foldl_enqueueReady (processes : List ProcessControlBlock) (queue : List ProcessId) :
    ∃ added, processes.foldl enqueueReady queue = queue ++ added ∧
      (∀ id, id ∈ queue ++ added ↔ id ∈ queue ∨ ∃ process ∈ processes, process.id = id ∧ process.state = .Ready) ∧
      (queue.Nodup → (queue ++ added).Nodup) := by
  induction processes generalizing queue with
  | nil =>
    refine ⟨[], (List.append_nil queue).symm, fun id => ?_, fun nodup => by rwa [List.append_nil]⟩
    simp
  | cons process processes ih =>
    obtain ⟨first, joined, single, member⟩ := enqueueReady_eq queue process
    obtain ⟨rest, folded, members, nodups⟩ := ih (enqueueReady queue process)
    rw [joined, List.append_assoc] at folded members
    rw [joined] at nodups
    refine ⟨first ++ rest, by rw [List.foldl_cons, joined, folded], fun id => ?_, fun nodup => ?_⟩
    · rw [members, List.mem_append, member]
      constructor
      · rintro ((old | ⟨rfl, ready, -⟩) | ⟨other, inRest, same, ready⟩)
        · exact Or.inl old
        · exact Or.inr ⟨process, List.mem_cons_self, rfl, ready⟩
        · exact Or.inr ⟨other, List.mem_cons_of_mem _ inRest, same, ready⟩
      · rintro (old | ⟨other, listed, same, ready⟩)
        · exact Or.inl (Or.inl old)
        · rcases List.mem_cons.mp listed with rfl | inRest
          · by_cases queued : id ∈ queue
            · exact Or.inl (Or.inl queued)
            · exact Or.inl (Or.inr ⟨same.symm, ready, queued⟩)
          · exact Or.inr ⟨other, inRest, same, ready⟩
    · have step : (queue ++ first).Nodup := by
        refine List.nodup_append.mpr ⟨nodup, single, ?_⟩
        rintro id queued other joins rfl
        exact ((member id).mp joins).2.2 queued
      have whole := nodups step
      rwa [List.append_assoc] at whole

/-- The id at the front belongs to a ready process, which is taken. -/
theorem takeQueued_front {id : ProcessId} (rest : List ProcessId) {process : ProcessControlBlock}
    (listed : process ∈ table.processes) (same : process.id = id) (ready : process.state = .Ready) :
    ∃ p taken, takeQueued table (id :: rest) = (some p, rest) ∧ table.processes[p]? = some taken ∧ taken.id = id ∧
      taken.state = .Ready := by
  have matched : (table.processes.findIdx? (fun process => process.id == id && process.state == .Ready)).isSome =
      true := by
    rw [List.findIdx?_isSome, List.any_eq_true]
    exact ⟨process, listed, by simp [same, ready]⟩
  obtain ⟨p, found⟩ := Option.isSome_iff_exists.mp matched
  obtain ⟨bound, holds, -⟩ := List.findIdx?_eq_some_iff_getElem.mp found
  simp only [Bool.and_eq_true, beq_iff_eq] at holds
  exact ⟨p, _, by rw [takeQueued, found], List.getElem?_eq_getElem bound, holds.1, holds.2⟩

/-- The loop over the queue finds a ready process if one is queued. -/
theorem takeQueued_some {process : ProcessControlBlock} {queue : List ProcessId} (listed : process ∈ table.processes)
    (ready : process.state = .Ready) (queued : process.id ∈ queue) :
    ∃ p rest, takeQueued table queue = (some p, rest) := by
  induction queue with
  | nil => cases queued
  | cons id queue ih =>
    cases found : table.processes.findIdx? (fun process => process.id == id && process.state == .Ready) with
    | some p => exact ⟨p, queue, by rw [takeQueued, found]⟩
    | none =>
      rw [takeQueued, found]
      rcases List.mem_cons.mp queued with same | later
      · rw [List.findIdx?_eq_none_iff] at found
        have refused := found process listed
        simp [same, ready] at refused
      · exact ih later

/-- A scheduler in its running state returns a process while a ready one is queued. -/
theorem acquireProcess_ne_none (running : scheduler.running = true) {process : ProcessControlBlock}
    (listed : process ∈ table.processes) (ready : process.state = .Ready) (queued : process.id ∈ scheduler.readyQueue)
    (next : PreemptiveScheduler) (after : ProcessTable) :
    scheduler.acquireProcess table ≠ some (none, next, after) := by
  obtain ⟨p, rest, taken⟩ := takeQueued_some listed ready queued
  have nonempty : scheduler.readyQueue ≠ [] := List.ne_nil_of_mem queued
  rw [acquireProcess, if_neg (fun waits => nonempty waits.2), if_neg (by rw [running]; decide), pickNextProcess, taken]
  intro impossible
  cases impossible

/-- The loop over the queue leaves the ids of the ready processes in it, but for that of the one it takes. -/
theorem takeQueued_keeps {queue rest : List ProcessId} {found : Option ProcessRef}
    (taken : takeQueued table queue = (found, rest)) (listed : process ∈ table.processes)
    (ready : process.state = .Ready)
    (queued : process.id ∈ queue) :
    process.id ∈ rest ∨ ∃ p other, found = some p ∧ table.processes[p]? = some other ∧ other.id = process.id := by
  induction queue with
  | nil => cases queued
  | cons id queue ih =>
    by_cases front : process.id = id
    · obtain ⟨p, other, took, here, same, -⟩ := takeQueued_front queue listed front ready
      cases took.symm.trans taken
      exact Or.inr ⟨p, other, rfl, here, same.trans front.symm⟩
    · have behind : process.id ∈ queue := (List.mem_cons.mp queued).resolve_left front
      unfold takeQueued at taken
      split at taken
      · cases taken
        exact Or.inl behind
      · exact ih taken behind

/-- An acquisition leaves the ids of the ready processes in the queue, but for that of the one it returns. -/
theorem acquireProcess_keeps {found : Option ProcessRef} {after : ProcessTable}
    (acquired : scheduler.acquireProcess table = some (found, next, after)) (listed : process ∈ table.processes)
    (ready : process.state = .Ready) (queued : process.id ∈ scheduler.readyQueue) :
    process.id ∈ next.readyQueue ∨ ∃ p other, found = some p ∧ table.processes[p]? = some other ∧
      other.id = process.id := by
  unfold acquireProcess pickNextProcess at acquired
  split at acquired
  · cases acquired
  · split at acquired
    · cases acquired
      exact Or.inl queued
    · split at acquired
      · rename_i q rest took
        cases acquired
        exact takeQueued_keeps took listed ready queued
      · rename_i rest took
        have kept := (takeQueued_keeps took listed ready queued).resolve_right
          (by rintro ⟨p, other, impossible, -⟩; cases impossible)
        split at acquired
        · cases acquired
          exact Or.inl kept
        · cases acquired
          exact Or.inl kept

/-- Calls of `acquireProcess`, one after the other, come to return process `p`;
none of them waits before, and none returns `nullptr`. -/
inductive Acquirable (p : ProcessRef) : PreemptiveScheduler → ProcessTable → Prop
  | now {scheduler next : PreemptiveScheduler} {table after : ProcessTable}
      (acquired : scheduler.acquireProcess table = some (some p, next, after)) : Acquirable p scheduler table
  | later {scheduler next : PreemptiveScheduler} {table after : ProcessTable} {q : ProcessRef}
      (acquired : scheduler.acquireProcess table = some (some q, next, after)) (onward : Acquirable p next after) :
      Acquirable p scheduler table

theorem takeQueued_shorter {queue rest : List ProcessId} {p : ProcessRef}
    (taken : takeQueued table queue = (some p, rest)) : rest.length < queue.length := by
  induction queue with
  | nil => cases taken
  | cons id queue ih =>
    unfold takeQueued at taken
    split at taken
    · cases taken
      exact Nat.lt_succ_self _
    · exact Nat.lt_succ_of_lt (ih taken)

/-- A ready process that is queued is returned by one of the next acquisitions,
as long as the scheduler runs: each of them takes an id from the front of the
queue, and only the acquisition of the process itself takes its id. -/
theorem acquirable_of_queued {scheduler : PreemptiveScheduler} {p : ProcessRef} {process : ProcessControlBlock}
    (running : scheduler.running = true)
    (numbers : ∀ q other, table.processes[q]? = some other → other.id = q + 1)
    (found : table.processes[p]? = some process) (ready : process.state = .Ready)
    (queued : process.id ∈ scheduler.readyQueue) : Acquirable p scheduler table := by
  generalize length : scheduler.readyQueue.length = n
  induction n using Nat.strong_induction_on generalizing scheduler table with
  | _ n ih =>
    obtain ⟨q, rest, taken⟩ := takeQueued_some (List.mem_of_getElem? found) ready queued
    have nonempty : scheduler.readyQueue ≠ [] := List.ne_nil_of_mem queued
    have acquired : scheduler.acquireProcess table =
        some (some q, { scheduler with readyQueue := rest }, scheduler.dispatch table q) := by
      rw [acquireProcess, if_neg (fun waits => nonempty waits.2), if_neg (by rw [running]; decide), pickNextProcess,
        taken]
    by_cases same : p = q
    · subst same
      exact .now acquired
    · have kept : (scheduler.dispatch table q).processes[p]? = some process := by
        rw [dispatch, ProcessTable.getElem?_modify_other _ _ same]
        exact found
      have remains : process.id ∈ rest := by
        rcases takeQueued_keeps taken (List.mem_of_getElem? found) ready queued with stays | ⟨r, other, one, there, id⟩
        · exact stays
        · cases one
          have number := (numbers p process found).symm.trans (id.symm.trans (numbers q other there))
          exact absurd (Nat.succ.inj number) same
      refine .later acquired (ih rest.length ?_ running ?_ kept remains rfl)
      · rw [← length]
        exact takeQueued_shorter taken
      · intro r other here
        by_cases mine : r = q
        · subst mine
          rw [dispatch, ProcessTable.getElem?_modify_same] at here
          obtain ⟨before, there, rfl⟩ := Option.map_eq_some_iff.mp here
          exact numbers r before there
        · rw [dispatch, ProcessTable.getElem?_modify_other _ _ mine] at here
          exact numbers r other here

/-- Without a ready process the fallback scan finds nothing. -/
theorem scanReady_none (scheduler : PreemptiveScheduler)
    (noneReady : ∀ (p : ProcessRef) (process : ProcessControlBlock), table.processes[p]? = some process →
      process.state ≠ .Ready) :
    scheduler.scanReady table = none := by
  cases scanned : scheduler.scanReady table with
  | none => rfl
  | some p =>
    obtain ⟨process, found, ready⟩ := scanReady_ready scanned
    exact absurd ready (noneReady p process found)

end PreemptiveScheduler

namespace VirtualOS

def stateOf (os : VirtualOS) (p : ProcessRef) :
    Option ProcessState := (os.process? p).map (fun process => process.state)

/-- Processes are numbered from one in the order of the table, and the queue
holds ids of ready processes only, each once. -/
structure QueueSound (os : VirtualOS) : Prop where
  ids : ∀ p process, os.process? p = some process → process.id = p + 1
  nextId : os.processTable.nextProcessId = os.processTable.processes.length + 1
  nodup : os.scheduler.readyQueue.Nodup
  ready : ∀ id ∈ os.scheduler.readyQueue, ∃ p, id = p + 1 ∧ os.stateOf p = some .Ready

/-- Besides, every ready process is in the queue. -/
structure QueueExact (os : VirtualOS) : Prop extends QueueSound os where
  complete : ∀ p, os.stateOf p = some .Ready → p + 1 ∈ os.scheduler.readyQueue

/-- The machine once process `p` has been taken and this queue is left. -/
def dispatched (os : VirtualOS) (p : ProcessRef) (rest : List ProcessId) : VirtualOS :=
  { os with
    scheduler := { os.scheduler with readyQueue := rest }
    processTable := os.scheduler.dispatch os.processTable p }

variable {os : VirtualOS} {p : ProcessRef} {process : ProcessControlBlock}

theorem stateOf_eq_some {state : ProcessState} :
    os.stateOf p = some state ↔ ∃ process, os.process? p = some process ∧ process.state = state :=
  Option.map_eq_some_iff

theorem stateOf_setState_same (state : ProcessState) (found : os.process? p = some process) :
    (os.setState p state).stateOf p = some state := by
  rw [stateOf, process?_setState_same, found]
  rfl

theorem stateOf_setState_other {q : ProcessRef} (state : ProcessState) (other : q ≠ p) :
    (os.setState p state).stateOf q = os.stateOf q := by
  rw [stateOf, process?_setState_other _ _ other, stateOf]

theorem QueueExact.create (quantum : Nat) (input : List Word) : (VirtualOS.create quantum input).QueueExact where
  ids := by
    intro p process found
    cases found
  nextId := rfl
  nodup := .nil
  ready := by
    intro id member
    cases member
  complete := by
    intro p ready
    cases ready

theorem notifyProcessReady_queues (found : os.process? p = some process) (ready : process.state = .Ready) :
    process.id ∈ os.notifyProcessReady.scheduler.readyQueue := by
  obtain ⟨added, folded, members, -⟩ :=
    PreemptiveScheduler.foldl_enqueueReady os.processTable.processes os.scheduler.readyQueue
  have queue : os.notifyProcessReady.scheduler.readyQueue = os.scheduler.readyQueue ++ added := folded
  rw [queue, members]
  exact Or.inr ⟨process, List.mem_of_getElem? found, rfl, ready⟩

namespace QueueSound

theorem queued_ready (sound : os.QueueSound) (queued : p + 1 ∈ os.scheduler.readyQueue) :
    os.stateOf p = some .Ready := by
  obtain ⟨q, same, ready⟩ := sound.ready _ queued
  obtain rfl : p = q := Nat.succ.inj same
  exact ready

/-- `notifyProcessReady` adds what is missing, at the end. -/
theorem notify (sound : os.QueueSound) : os.notifyProcessReady.QueueExact ∧
    ∃ added, os.notifyProcessReady.scheduler.readyQueue = os.scheduler.readyQueue ++ added := by
  obtain ⟨added, folded, members, nodups⟩ :=
    PreemptiveScheduler.foldl_enqueueReady os.processTable.processes os.scheduler.readyQueue
  have queue : os.notifyProcessReady.scheduler.readyQueue = os.scheduler.readyQueue ++ added := folded
  refine ⟨⟨⟨sound.ids, sound.nextId, ?_, ?_⟩, ?_⟩, added, queue⟩
  · rw [queue]
    exact nodups sound.nodup
  · intro id member
    rw [queue, members] at member
    rcases member with old | ⟨process, listed, rfl, ready⟩
    · exact sound.ready id old
    · obtain ⟨p, found⟩ := List.mem_iff_getElem?.mp listed
      exact ⟨p, sound.ids p process found, stateOf_eq_some.mpr ⟨process, found, ready⟩⟩
  · intro p ready
    obtain ⟨process, found, ready⟩ := stateOf_eq_some.mp ready
    rw [queue, members]
    exact Or.inr ⟨process, List.mem_of_getElem? found, sound.ids p process found, ready⟩

/-- A write of a state other than `Ready` to a process that is not in the queue. -/
theorem setState (sound : os.QueueSound) (state : ProcessState) (found : os.process? p = some process)
    (absent : p + 1 ∉ os.scheduler.readyQueue) : (os.setState p state).QueueSound where
  ids := by
    intro q other here
    by_cases same : q = p
    · subst same
      rw [process?_setState_same, found] at here
      cases here
      exact sound.ids q process found
    · rw [process?_setState_other _ _ same] at here
      exact sound.ids q other here
  nextId := by
    rw [length_setState]
    exact sound.nextId
  nodup := sound.nodup
  ready := by
    intro id member
    obtain ⟨q, rfl, ready⟩ := sound.ready id member
    have differ : q ≠ p := by
      rintro rfl
      exact absent member
    exact ⟨q, rfl, by rw [stateOf_setState_other _ differ]; exact ready⟩

/-- The process at the front of the queue is acquired, and the queue moves up. -/
theorem acquire (sound : os.QueueSound) (enabled : os.scheduler.running = true) {id : ProcessId} {rest : List ProcessId}
    (queue : os.scheduler.readyQueue = id :: rest) :
    ∃ p, id = p + 1 ∧ os.stateOf p = some .Ready ∧
      os.scheduler.acquireProcess os.processTable =
        some (some p, { os.scheduler with readyQueue := rest }, os.scheduler.dispatch os.processTable p) := by
  obtain ⟨q, rfl, ready⟩ := sound.ready id (by rw [queue]; exact List.mem_cons_self)
  obtain ⟨process, found, state⟩ := stateOf_eq_some.mp ready
  obtain ⟨p, taken, front, here, same, takenReady⟩ := PreemptiveScheduler.takeQueued_front rest
    (List.mem_of_getElem? found) (sound.ids q process found) state
  have number : taken.id = p + 1 := sound.ids p taken here
  obtain rfl : q = p := Nat.succ.inj (same.symm.trans number)
  refine ⟨q, rfl, ready, ?_⟩
  have nonempty : os.scheduler.readyQueue ≠ [] := by
    rw [queue]
    exact List.cons_ne_nil _ _
  rw [PreemptiveScheduler.acquireProcess, if_neg (fun waits => nonempty waits.2), if_neg (by rw [enabled]; decide),
    PreemptiveScheduler.pickNextProcess, queue, front]

/-- The machine after `acquireProcess` has returned process `p`. -/
theorem dispatched (sound : os.QueueSound) {rest : List ProcessId} (queue : os.scheduler.readyQueue = (p + 1) :: rest) :
    (os.dispatched p rest).QueueSound ∧ (os.dispatched p rest).stateOf p = some .Running ∧
      ∀ q, q ≠ p → (os.dispatched p rest).stateOf q = os.stateOf q := by
  obtain ⟨process, found, ready⟩ := stateOf_eq_some.mp (sound.queued_ready (by rw [queue]; exact List.mem_cons_self))
  have fresh := sound.nodup
  rw [queue, List.nodup_cons] at fresh
  have own : (os.dispatched p rest).process? p =
      some ((process.setState .Running).resetTimeSlice os.scheduler.quantum) :=
    (os.process?_modifyProcess_same _).trans (by rw [found]; rfl)
  have other : ∀ q, q ≠ p → (os.dispatched p rest).process? q = os.process? q :=
    fun q differ => os.process?_modifyProcess_other _ differ
  have states : ∀ q, q ≠ p → (os.dispatched p rest).stateOf q = os.stateOf q := by
    intro q differ
    rw [stateOf, other q differ, stateOf]
  refine ⟨⟨?_, ?_, fresh.2, ?_⟩, stateOf_eq_some.mpr ⟨_, own, rfl⟩, states⟩
  · intro q block here
    by_cases same : q = p
    · subst same
      rw [own] at here
      cases here
      exact sound.ids q process found
    · rw [other q same] at here
      exact sound.ids q block here
  · have length := os.processTable.length_modify p
      (fun process => (process.setState .Running).resetTimeSlice os.scheduler.quantum)
    exact sound.nextId.trans (congrArg (fun n => n + 1) length.symm)
  · intro id member
    obtain ⟨q, rfl, state⟩ := sound.ready id (by rw [queue]; exact List.mem_cons_of_mem _ member)
    have differ : q ≠ p := by
      rintro rfl
      exact fresh.1 member
    exact ⟨q, rfl, (states q differ).trans state⟩

theorem emplaced (sound : os.QueueSound) (physical : PhysicalMemory) (layout : MemoryRegionLayout) :
    (os.emplaced physical layout).QueueSound where
  ids := by
    intro q other here
    have bound := lt_length_of_process? here
    rw [length_emplaced] at bound
    by_cases old : q < os.processTable.processes.length
    · rw [process?_emplaced_old _ _ _ old] at here
      exact sound.ids q other here
    · obtain rfl : q = os.processTable.processes.length :=
        Nat.le_antisymm (Nat.lt_succ_iff.mp bound) (Nat.le_of_not_lt old)
      rw [process?_emplaced_new] at here
      cases here
      exact sound.nextId
  nextId := by
    rw [length_emplaced, VirtualOS.emplaced, ProcessTable.emplace]
    exact congrArg (fun n => n + 1) sound.nextId
  nodup := sound.nodup
  ready := by
    intro id member
    obtain ⟨q, same, ready⟩ := sound.ready id member
    obtain ⟨process, found, state⟩ := stateOf_eq_some.mp ready
    refine ⟨q, same, stateOf_eq_some.mpr ⟨process, ?_, state⟩⟩
    rw [process?_emplaced_old _ _ _ (lt_length_of_process? found)]
    exact found

/-- Nothing can be queued under the number of a process that is running, or not there. -/
theorem not_queued (sound : os.QueueSound) (other : os.stateOf p ≠ some .Ready) : p + 1 ∉ os.scheduler.readyQueue :=
  fun queued => other (sound.queued_ready queued)

theorem published (sound : os.QueueSound) (physical : PhysicalMemory) (layout : MemoryRegionLayout) :
    (os.published physical layout).QueueExact ∧
      ∃ added, (os.published physical layout).scheduler.readyQueue = os.scheduler.readyQueue ++ added := by
  have absent : os.processTable.processes.length + 1 ∉ os.scheduler.readyQueue := by
    refine sound.not_queued fun ready => ?_
    obtain ⟨process, found, -⟩ := stateOf_eq_some.mp ready
    exact Nat.lt_irrefl _ (lt_length_of_process? found)
  have placed := sound.emplaced physical layout
  have ready := placed.setState .Ready (os.process?_emplaced_new physical layout) absent
  exact ready.notify

/-- A process that is running halts, and the queue is brought up to date. -/
theorem halted (sound : os.QueueSound) (running : os.stateOf p = some .Running) :
    (os.setState p .Halted).notifyProcessReady.QueueExact ∧
      ∃ added, (os.setState p .Halted).notifyProcessReady.scheduler.readyQueue = os.scheduler.readyQueue ++ added := by
  obtain ⟨process, found, -⟩ := stateOf_eq_some.mp running
  have absent : p + 1 ∉ os.scheduler.readyQueue := sound.not_queued (by rw [running]; decide)
  exact (sound.setState .Halted found absent).notify

end QueueSound

namespace QueueExact

theorem dispatched (exact : os.QueueExact) {rest : List ProcessId} (queue : os.scheduler.readyQueue = (p + 1) :: rest) :
    (os.dispatched p rest).QueueExact := by
  obtain ⟨sound, running, states⟩ := exact.toQueueSound.dispatched queue
  refine ⟨sound, fun q ready => ?_⟩
  have differ : q ≠ p := by
    rintro rfl
    rw [running] at ready
    cases ready
  rw [states q differ] at ready
  have queued := exact.complete q ready
  rw [queue] at queued
  rcases List.mem_cons.mp queued with same | member
  · exact absurd (Nat.succ.inj same) differ
  · exact member

/-- The machine after `onPreempt` of a running process. -/
theorem preempted (exact : os.QueueExact) (running : os.stateOf p = some .Running) :
    ({ os.setState p .Ready with
        scheduler := { os.scheduler with readyQueue := os.scheduler.readyQueue ++ [p + 1] } } :
          VirtualOS).QueueExact := by
  obtain ⟨process, found, -⟩ := stateOf_eq_some.mp running
  have absent : p + 1 ∉ os.scheduler.readyQueue := exact.not_queued (by rw [running]; decide)
  have sound := exact.toQueueSound.setState .Ready found absent
  refine ⟨⟨sound.ids, sound.nextId, ?_, ?_⟩, ?_⟩
  · refine List.nodup_append.mpr ⟨exact.nodup, by simp, ?_⟩
    rintro id queued other member rfl
    rw [List.mem_singleton.mp member] at queued
    exact absent queued
  · intro id member
    rcases List.mem_append.mp member with queued | new
    · exact sound.ready id queued
    · exact ⟨p, List.mem_singleton.mp new, stateOf_setState_same .Ready found⟩
  · intro q ready
    refine List.mem_append.mpr ?_
    by_cases same : q = p
    · subst same
      exact Or.inr (List.mem_singleton.mpr rfl)
    · have old : os.stateOf q = some .Ready := (stateOf_setState_other .Ready same).symm.trans ready
      exact Or.inl (exact.complete q old)

end QueueExact

end VirtualOS

end VirtualMachine
