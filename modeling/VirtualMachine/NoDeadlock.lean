import VirtualMachine.NoStranding

namespace VirtualMachine

open TransitionSystem

/-- The core is on its way to `notifyProcessReady`, with a process that is ready and perhaps not queued. -/
def CoreState.Announces : CoreState → Prop
  | .loading _ _ _ | .notifying => True
  | _ => False

namespace CoreMove

variable {files : FileSystem} {stopRequested : Bool} {os after : VirtualOS} {state next : CoreState} {p : ProcessRef}
  {process : ProcessControlBlock}

/-- A core leaves its loop only when it is told to. -/
theorem stop_of_exited (move : CoreMove files stopRequested os state next after) (left : next = .exited) :
    stopRequested = true := by
  cases move with
  | leave stop top => exact stop
  | starve | acquire | look | discard | throw | finish | loadFails | emplace | publish | finishLoad | halt | fail
  | yield
  | expire | keep | preempt | pass | giveBack | drop | announce => cases left

end CoreMove

/-- The process is ready and in the queue, or a core is about to announce it, or
this core has left it alone, ready and not in the queue. -/
inductive ReadyCase (os after : VirtualOS) (state next : CoreState) (q : ProcessRef) (process : ProcessControlBlock) :
    Prop
  | queued (queued : process.id ∈ after.scheduler.readyQueue)
  | announced (announces : next.Announces)
  | left {same : ProcessControlBlock} (found : os.process? q = some same) (ready : same.state = .Ready)
      (id : same.id = process.id) (quiet : ¬ state.Announces) (unqueued : process.id ∉ os.scheduler.readyQueue)

namespace ReadyCase

variable {os after : VirtualOS} {state next : CoreState} {q p : ProcessRef} {process same : ProcessControlBlock}

/-- A step that takes nothing out of the queue and makes nothing ready. -/
theorem of_same (found : os.process? q = some same) (ready : same.state = .Ready) (id : same.id = process.id)
    (quiet : ¬ state.Announces) (queue : after.scheduler.readyQueue = os.scheduler.readyQueue) :
    ReadyCase os after state next q process := by
  by_cases queued : process.id ∈ os.scheduler.readyQueue
  · exact .queued (queue ▸ queued)
  · exact .left found ready id quiet queued

/-- A write into a process that is not ready afterwards if it has not been before. -/
theorem of_modifyProcess {f : ProcessControlBlock → ProcessControlBlock}
    (found : (os.modifyProcess p f).process? q = some process)
    (ready : process.state = .Ready) (id : ∀ process, (f process).id = process.id)
    (keeps : ∀ process, (f process).state = .Ready → process.state = .Ready) (quiet : ¬ state.Announces) :
    ReadyCase os (os.modifyProcess p f) state next q process := by
  by_cases own : q = p
  · subst own
    rw [VirtualOS.process?_modifyProcess_same] at found
    obtain ⟨same, here, rfl⟩ := Option.map_eq_some_iff.mp found
    exact .of_same here (keeps same ready) (id same).symm quiet rfl
  · rw [VirtualOS.process?_modifyProcess_other _ _ own] at found
    exact .of_same found ready rfl quiet rfl

/-- An instruction makes nothing ready. -/
theorem of_update {ctx : ExecutionContext} (here : os.process? p = some same)
    (frame : InstructionFrame (os.context same) ctx) (found : (os.update p ctx).process? q = some process)
    (ready : process.state = .Ready) (quiet : ¬ state.Announces) :
    ReadyCase os (os.update p ctx) state next q process := by
  by_cases own : q = p
  · subst own
    rw [VirtualOS.process?_update_same _ _ here] at found
    cases found
    have before : same.state = .Ready := by
      rcases frame.state with kept | ⟨halted, -⟩
      · exact kept.symm.trans ready
      · exact absurd (halted.symm.trans ready) (by decide)
    exact .of_same here before frame.id.symm quiet rfl
  · rw [VirtualOS.process?_update_other _ _ own] at found
    exact .of_same found ready rfl quiet rfl

/-- A process that is acquired is not ready any more. -/
theorem of_acquire (taken : CoreLoop.acquire os = some (next, after)) (numbered : os.Numbered)
    (found : after.process? q = some process) (ready : process.state = .Ready) :
    ReadyCase os after .seeking next q process := by
  unfold CoreLoop.acquire at taken
  split at taken
  · cases taken
  · rename_i taker scheduler table acquired
    have kept : os.process? q = some process → process.id ∈ os.scheduler.readyQueue →
        (∀ p, taker = some p → q ≠ p) → process.id ∈ scheduler.readyQueue := by
      intro here queued apart
      rcases PreemptiveScheduler.acquireProcess_keeps acquired (List.mem_of_getElem? here) ready queued with
        stays | ⟨p, other, same, there, id⟩
      · exact stays
      · have number := (numbered.ids p other there).symm.trans (id.trans (numbered.ids q process here))
        exact absurd (Nat.succ.inj number).symm (apart p same)
    have conclude : os.process? q = some process → (∀ p, taker = some p → q ≠ p) →
        after.scheduler.readyQueue = scheduler.readyQueue → ReadyCase os after .seeking next q process := by
      intro here apart queue
      by_cases queued : process.id ∈ os.scheduler.readyQueue
      · exact .queued (queue ▸ kept here queued apart)
      · exact .left here ready rfl (fun announces => announces) queued
    split at taken
    · obtain rfl := PreemptiveScheduler.acquireProcess_none acquired
      cases taken
      exact conclude found (by intro p impossible; cases impossible) rfl
    · rename_i p
      obtain ⟨other, here, -, rfl⟩ := PreemptiveScheduler.acquireProcess_some acquired
      cases taken
      have apart : q ≠ p := by
        rintro rfl
        rw [VirtualOS.process?, PreemptiveScheduler.dispatch, ProcessTable.getElem?_modify_same] at found
        obtain ⟨old, -, rfl⟩ := Option.map_eq_some_iff.mp found
        cases ready
      have before : os.process? q = some process := by
        rw [VirtualOS.process?, PreemptiveScheduler.dispatch, ProcessTable.getElem?_modify_other _ _ apart] at found
        exact found
      exact conclude before (by rintro _ ⟨⟩; exact apart) rfl

end ReadyCase

namespace CoreLoop

variable {files : FileSystem} {stopRequested : Bool} {os after : VirtualOS} {state next : CoreState}

theorem acquire_of_step (taken : step files stopRequested os .seeking = some (next, after)) (stays : next ≠ .exited) :
    acquire os = some (next, after) := by
  rw [step] at taken
  split at taken
  · cases taken
    exact absurd rfl stays
  · exact taken

/-- What has become of the ready processes after a step of a core. -/
theorem step_ready {q : ProcessRef} {process : ProcessControlBlock}
    (taken : step files stopRequested os state = some (next, after)) (numbered : os.Numbered)
    (found : after.process? q = some process) (ready : process.state = .Ready) :
    ReadyCase os after state next q process := by
  cases step_move taken with
  | leave stop top =>
    refine .of_same found ready rfl ?_ rfl
    rcases top with rfl | rfl | ⟨p, rfl⟩ <;> exact fun announces => announces
  | starve scheduler => exact .of_acquire (acquire_of_step taken (by decide)) numbered found ready
  | acquire scheduler here state =>
    exact .of_acquire (acquire_of_step taken (by intro impossible; cases impossible)) numbered found ready
  | look | drop | announce => exact .queued (VirtualOS.notifyProcessReady_queues found ready)
  | discard | expire | keep | pass => exact .of_same found ready rfl (fun announces => announces) rfl
  | @throw p same e ctx here alive began =>
    have frame := beginInstruction_frame (os.context same)
    rw [began] at frame
    exact .of_update here frame found ready (fun announces => announces)
  | @finish p same result ctx here alive began =>
    have frame := beginInstruction_frame (os.context same)
    rw [began] at frame
    exact .of_update here frame found ready (fun announces => announces)
  | @loadFails p same path here alive load physical left =>
    have updated : ReadyCase os (os.update p (os.context same)) (.holding p) .terminated q process :=
      .of_update here (.refl _) found ready (fun announces => announces)
    cases updated with
    | queued queued => exact .queued queued
    | announced announces => exact .announced announces
    | left found ready id quiet unqueued => exact .left found ready id quiet unqueued
  | emplace | publish | giveBack => exact .announced trivial
  | @finishLoad p child =>
    refine .queued ?_
    cases here : os.notifyProcessReady.process? p with
    | none =>
      rw [VirtualOS.finishLoad, here] at found ⊢
      exact VirtualOS.notifyProcessReady_queues found ready
    | some same =>
      rw [VirtualOS.finishLoad_eq here] at found ⊢
      have updated : ReadyCase os.notifyProcessReady
          (os.notifyProcessReady.update p (finishCall (some .Load) (os.notifyProcessReady.context same)).2)
          .seeking .seeking q process :=
        .of_update here (finishCall_frame (some .Load) _) found ready (fun announces => announces)
      cases updated with
      | queued queued => exact queued
      | announced announces => exact announces.elim
      | left present state id quiet unqueued => exact id ▸ VirtualOS.notifyProcessReady_queues present state
  | halt here =>
    exact .of_modifyProcess found ready (fun _ => rfl) (by intro _ impossible; cases impossible)
      (fun announces => announces)
  | fail here =>
    exact .of_modifyProcess found ready (fun _ => rfl) (by intro _ impossible; cases impossible)
      (fun announces => announces)
  | yield here => exact .of_modifyProcess found ready (fun _ => rfl) (fun _ was => was) (fun announces => announces)
  | @preempt p same here running scheduler =>
    obtain ⟨other, present, released⟩ := Option.map_eq_some_iff.mp taken
    cases here.symm.trans present
    rw [release_preempt here running] at released
    cases released
    by_cases own : q = p
    · subst own
      have set : (os.setState q .Ready).process? q = some (same.setState .Ready) := by
        rw [VirtualOS.process?_setState_same, here]
        rfl
      cases set.symm.trans found
      exact .queued (List.mem_append_right _ (List.mem_singleton.mpr rfl))
    · have before : os.process? q = some process := (os.process?_setState_other .Ready own).symm.trans found
      by_cases queued : process.id ∈ os.scheduler.readyQueue
      · exact .queued (List.mem_append_left _ queued)
      · exact .left before ready rfl (fun announces => announces) queued

theorem exists_acquire (awake : ¬ (os.scheduler.running = true ∧ os.scheduler.readyQueue = [])) :
    ∃ next after, acquire os = some (next, after) := by
  rw [acquire, PreemptiveScheduler.acquireProcess, if_neg awake]
  split
  · rename_i waits
    split at waits <;> cases waits
  · split
    · exact ⟨_, _, rfl⟩
    · exact ⟨_, _, rfl⟩

/-- Only a core that waits in `acquireProcess`, or has left its loop, takes no step. -/
theorem exists_step (files : FileSystem) (stopRequested : Bool) (consistent : state.Consistent os)
    (loops : state ≠ .exited ∧ state ≠ .terminated)
    (awake : state = .seeking → stopRequested = true ∨ os.scheduler.running = false ∨ os.scheduler.readyQueue ≠ []) :
    ∃ next after, step files stopRequested os state = some (next, after) := by
  have ofSome : ∀ {result : Option (CoreState × VirtualOS)}, result.isSome = true →
      ∃ next after, result = some (next, after) := by
    intro result isSome
    obtain ⟨⟨next, after⟩, same⟩ := Option.isSome_iff_exists.mp isSome
    exact ⟨next, after, same⟩
  have mapped : ∀ {p : ProcessRef} {f : ProcessControlBlock → CoreState × VirtualOS} {process : ProcessControlBlock},
      os.process? p = some process → ((os.process? p).map f).isSome = true := by
    intro p f process found
    rw [found]
    rfl
  cases state with
  | exited => exact absurd rfl loops.1
  | terminated => exact absurd rfl loops.2
  | seeking =>
    rw [step]
    split
    · exact ⟨_, _, rfl⟩
    · rename_i goes
      refine exists_acquire ?_
      rintro ⟨running, empty⟩
      rcases awake rfl with stopped | ended | queued
      · exact goes stopped
      · rw [running] at ended
        cases ended
      · exact queued empty
  | idle =>
    rw [step]
    split
    · exact ⟨_, _, rfl⟩
    · exact ⟨_, _, rfl⟩
  | holding p =>
    obtain ⟨process, found, -⟩ := consistent
    rw [step]
    split
    · exact ⟨_, _, rfl⟩
    · exact ofSome (mapped found)
  | loading p child stage =>
    cases stage with
    | emplaced => exact ⟨_, _, rfl⟩
    | ready => exact ⟨_, _, rfl⟩
  | executed p result =>
    obtain ⟨process, found, -⟩ := consistent
    exact ofSome (mapped found)
  | releasing p preempt =>
    obtain ⟨process, found, -⟩ := consistent
    exact ofSome (mapped found)
  | notifying => exact ⟨_, _, rfl⟩

end CoreLoop

namespace Machine

variable {κ : Type}

theorem live_of_step [DecidableEq κ] [Fintype κ] {files : FileSystem} {machine next : Machine κ} {action : Action κ}
    (taken : machine.step files action = some next) : machine.terminated = false := by
  cases live : machine.terminated with
  | false => rfl
  | true =>
    unfold Machine.step at taken
    rw [if_pos live] at taken
    cases taken

/-- While a call of `run` is under way, every process that is ready is queued or
about to be, and no core has left its loop before it is told to. -/
structure Announced (machine : Machine κ) : Prop extends Accounted machine where
  numbered : machine.os.Numbered
  announced : machine.phase ≠ .idle → ∀ p process, machine.process? p = some process → process.state = .Ready →
    process.id ∈ machine.os.scheduler.readyQueue ∨ ∃ c, (machine.cores c).Announces
  told : machine.phase = .stopping → machine.stopRequested = true
  loops : machine.terminated = false → ∀ c, machine.cores c ≠ .terminated ∧
    (machine.phase = .waiting → machine.cores c ≠ .exited)

namespace Announced

variable {files : FileSystem} {machine next : Machine κ} {action : Action κ}

theorem boot (quantum : Nat) (input : List Word) : (Machine.boot quantum input : Machine κ).Announced where
  toAccounted := .boot quantum input
  numbered := .create quantum input
  announced running := absurd rfl running
  told impossible := by
    cases impossible
  loops _ _ := ⟨(by intro impossible; cases impossible), (by intro impossible; cases impossible)⟩

variable [DecidableEq κ] [Fintype κ]

theorem step (announced : machine.Announced) (unstranding : machine.Unstranding files action)
    (taken : machine.step files action = some next) (live : machine.terminated = false) : next.Announced := by
  have accounted := announced.toAccounted.step unstranding taken live
  cases action with
  | load source =>
    cases step_move taken with
    | load source idle =>
      exact ⟨accounted, announced.numbered.loadProgramFromSource source, fun running => absurd idle running,
        announced.told, announced.loops⟩
  | step id steps =>
    cases step_move taken with
    | step id steps idle =>
      exact ⟨accounted, announced.numbered.step files id steps, fun running => absurd idle running, announced.told,
        announced.loops⟩
  | start =>
    cases step_move taken with
    | start idle =>
      refine ⟨accounted, ⟨announced.numbered.ids, announced.numbered.nextId⟩, fun _ p process found ready => Or.inl ?_,
        ?_, ?_⟩
      · exact VirtualOS.notifyProcessReady_queues found ready
      · intro impossible
        cases impossible
      · exact fun _ _ => ⟨(by intro impossible; cases impossible), fun _ => (by intro impossible; cases impossible)⟩
  | stop =>
    cases step_move taken with
    | stop waiting halted =>
      refine ⟨accounted, ⟨announced.numbered.ids, announced.numbered.nextId⟩, fun _ p process found ready => ?_,
        fun _ => rfl, fun alive c => ?_⟩
      · have all := ProcessTable.allHalted_iff.mp halted p process found
        exact absurd (all.symm.trans ready) (by decide)
      · exact ⟨(announced.loops alive c).1, by intro impossible; cases impossible⟩
  | join =>
    cases step_move taken with
    | join stopping exited =>
      refine ⟨accounted, announced.numbered, fun running => absurd rfl running, ?_, fun alive c => ?_⟩
      · intro impossible
        cases impossible
      · exact ⟨(announced.loops alive c).1, by intro impossible; cases impossible⟩
  | core c =>
    have moved := core_step taken
    cases step_move taken with
    | @core c state os move =>
      dsimp only at moved
      rw [Function.update_self] at moved
      refine ⟨accounted, move.numbered announced.numbered, fun running q process found ready => ?_, announced.told,
        fun alive d => ?_⟩
      · cases CoreLoop.step_ready moved announced.numbered found ready with
        | queued queued => exact Or.inl queued
        | announced announces =>
          exact Or.inr ⟨c, (congrArg CoreState.Announces (Function.update_self ..)).mpr announces⟩
        | left before state id quiet unqueued =>
          have known := announced.announced running q _ before state
          rw [id] at known
          obtain ⟨d, announces⟩ := known.resolve_left unqueued
          have other : d ≠ c := by
            rintro rfl
            exact quiet announces
          exact Or.inr ⟨d, (congrArg CoreState.Announces (Function.update_of_ne other ..)).mpr announces⟩
      · show Function.update machine.cores c state d ≠ _ ∧ (_ → Function.update machine.cores c state d ≠ _)
        by_cases mine : d = c
        · subst mine
          rw [Function.update_self]
          refine ⟨of_decide_eq_false alive, fun waiting left => ?_⟩
          have told := move.stop_of_exited left
          rw [announced.waiting waiting] at told
          cases told
        · rw [Function.update_of_ne mine]
          exact announced.loops live d

/-- Deadlock freedom: while a call of `run` is under way, somebody can take a step. -/
theorem exists_step [Nonempty κ] (files : FileSystem) (announced : machine.Announced)
    (alive : machine.terminated = false)
    (running : machine.phase ≠ .idle) : ∃ action next, machine.step files action = some next := by
  have looping := announced.loops alive
  have coreStep : ∀ c, (∃ state os, CoreLoop.step files machine.stopRequested machine.os (machine.cores c) =
    some (state, os)) →
      ∃ action next, machine.step files action = some next := by
    rintro c ⟨state, os, moved⟩
    have taken : machine.step files (.core c) = machine.coreStep files c := if_neg (by rw [alive]; decide)
    rw [coreStep, moved] at taken
    exact ⟨.core c, _, taken⟩
  cases phase : machine.phase with
  | idle => exact absurd phase running
  | stopping =>
    by_cases exited : ∀ c, machine.cores c = .exited
    · exact ⟨.join, _, by rw [Machine.step, if_neg (by rw [alive]; decide)]; exact if_pos ⟨phase, exited⟩⟩
    · obtain ⟨c, loops⟩ := not_forall.mp exited
      exact coreStep c (CoreLoop.exists_step files machine.stopRequested (announced.consistent c) ⟨loops, (looping c).1⟩
        fun _ => Or.inl (announced.told phase))
  | waiting =>
    by_cases halted : machine.os.processTable.allHalted = true
    · exact ⟨.stop, _, by rw [Machine.step, if_neg (by rw [alive]; decide)]; exact if_pos ⟨phase, halted⟩⟩
    · by_cases busy : ∃ c, machine.cores c ≠ .seeking
      · obtain ⟨c, busy⟩ := busy
        exact coreStep c (CoreLoop.exists_step files machine.stopRequested (announced.consistent c)
          ⟨(looping c).2 phase, (looping c).1⟩
          fun seeks => absurd seeks busy)
      · have allSeek : ∀ c, machine.cores c = .seeking := fun c => by_contra fun other => busy ⟨c, other⟩
        have free : ∀ c p, ¬ machine.Holds c p := by
          intro c p holds
          rw [Holds, allSeek c] at holds
          cases holds
        have someAlive : ∃ p process, machine.process? p = some process ∧ process.state ≠ .Halted := by
          by_contra none
          refine halted (ProcessTable.allHalted_iff.mpr fun p process found => ?_)
          exact by_contra fun alive => none ⟨p, process, found, alive⟩
        obtain ⟨p, process, found, notHalted⟩ := someAlive
        have ready := (announced.states alive found).2.1 notHalted (fun c => free c p)
        have queued : process.id ∈ machine.os.scheduler.readyQueue := by
          refine (announced.announced running p process found ready).resolve_right ?_
          rintro ⟨c, announces⟩
          rw [allSeek c] at announces
          exact announces
        obtain ⟨c⟩ := ‹Nonempty κ›
        refine coreStep c (CoreLoop.exists_step files machine.stopRequested (announced.consistent c)
          ⟨(looping c).2 phase, (looping c).1⟩ fun _ => ?_)
        exact Or.inr (Or.inr (List.ne_nil_of_mem queued))

end Announced

theorem announced_of_run [DecidableEq κ] [Fintype κ] {quantum : Nat} {input : List Word} {files : FileSystem}
    {actions : List (Action κ)} {machine : Machine κ}
    (guarded : Guarded (Machine.step files) (Unstranding files) (boot quantum input) actions)
    (ran : run files (boot quantum input) actions = some machine) : machine.Announced := by
  refine run_invariant (fun machine action next announced unstranding taken => ?_) (Announced.boot quantum input)
    guarded ran
  exact announced.step unstranding taken (live_of_step taken)

end Machine

end VirtualMachine
