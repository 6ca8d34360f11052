import Mathlib.Algebra.BigOperators.Fin
import Mathlib.Algebra.Order.BigOperators.Group.Finset
import VirtualMachine.HaltingFinal
import VirtualMachine.Library.Sums
import VirtualMachine.NoDeadlock
import VirtualMachine.Os.Remaining
import VirtualMachine.ProgramExecution
import VirtualMachine.Restart

namespace VirtualMachine

open TransitionSystem ExecutionContext

namespace VirtualOS.QueueSound

variable {os after : VirtualOS} {p : ProcessRef} {process : ProcessControlBlock}

theorem numbered (sound : os.QueueSound) : os.Numbered := ⟨sound.ids, sound.nextId⟩

/-- A write into a process that is not in the queue. -/
theorem of_written (sound : os.QueueSound) (absent : p + 1 ∉ os.scheduler.readyQueue) (numbered : after.Numbered)
    (others : ∀ q, q ≠ p → after.process? q = os.process? q)
    (queue : after.scheduler.readyQueue = os.scheduler.readyQueue) : after.QueueSound where
  ids := numbered.ids
  nextId := numbered.nextId
  nodup := queue ▸ sound.nodup
  ready := by
    intro id member
    rw [queue] at member
    obtain ⟨q, rfl, ready⟩ := sound.ready id member
    have differ : q ≠ p := by
      rintro rfl
      exact absent member
    exact ⟨q, rfl, by rw [stateOf, others q differ]; exact ready⟩

theorem modifyProcess (sound : os.QueueSound) (absent : p + 1 ∉ os.scheduler.readyQueue)
    {f : ProcessControlBlock → ProcessControlBlock} (id : ∀ process, (f process).id = process.id) :
    (os.modifyProcess p f).QueueSound :=
  sound.of_written absent (sound.numbered.modifyProcess p id)
    (fun _ other => os.process?_modifyProcess_other f other) rfl

/-- A process that was not in the queue becomes ready and is appended to it. -/
theorem preempted (sound : os.QueueSound) (found : os.process? p = some process)
    (absent : p + 1 ∉ os.scheduler.readyQueue) :
    ({ os.setState p .Ready with
        scheduler := { os.scheduler with readyQueue := os.scheduler.readyQueue ++ [p + 1] } } :
          VirtualOS).QueueSound := by
  have ready := sound.setState .Ready found absent
  refine ⟨ready.ids, ready.nextId, ?_, ?_⟩
  · refine List.nodup_append.mpr ⟨sound.nodup, by simp, ?_⟩
    rintro id queued other member rfl
    rw [List.mem_singleton.mp member] at queued
    exact absent queued
  · intro id member
    rcases List.mem_append.mp member with queued | new
    · exact ready.ready id queued
    · exact ⟨p, List.mem_singleton.mp new, stateOf_setState_same .Ready found⟩

/-- A running scheduler whose queue holds ready processes only takes the first
one, or waits. -/
theorem of_acquire (sound : os.QueueSound) (running : os.scheduler.running = true) {next : CoreState}
    (taken : CoreLoop.acquire os = some (next, after)) : after.QueueSound ∧ ∃ p, next = .holding p := by
  cases queue : os.scheduler.readyQueue with
  | nil =>
    rw [CoreLoop.acquire, PreemptiveScheduler.acquireProcess, if_pos ⟨running, queue⟩] at taken
    cases taken
  | cons id rest =>
    obtain ⟨p, rfl, -, acquired⟩ := sound.acquire running queue
    rw [CoreLoop.acquire, acquired] at taken
    cases taken
    exact ⟨(sound.dispatched queue).1, p, rfl⟩

end VirtualOS.QueueSound

namespace CoreLoop

variable {files : FileSystem} {stopRequested : Bool} {os after : VirtualOS} {state next : CoreState}

/-- The queue stays sound, and no core finds nothing to do, while the scheduler
runs and nothing is loaded. -/
theorem step_queueSound (taken : step files stopRequested os state = some (next, after)) (sound : os.QueueSound)
    (consistent : state.Consistent os) (running : stopRequested = false → os.scheduler.running = true)
    (quiet : ∀ p child stage, state ≠ .loading p child stage ∧ next ≠ .loading p child stage)
    (lives : next ≠ .terminated) : after.QueueSound ∧ next ≠ .idle := by
  have absent : ∀ p, state.held = some p → p + 1 ∉ os.scheduler.readyQueue := by
    intro p held
    obtain ⟨process, found, notReady⟩ := consistent.held held
    refine sound.not_queued fun ready => ?_
    obtain ⟨same, here, state⟩ := VirtualOS.stateOf_eq_some.mp ready
    cases found.symm.trans here
    exact notReady state
  have acquired : ∀ {next : CoreState} {after : VirtualOS}, step files stopRequested os .seeking = some (next, after) →
    next ≠ .exited →
      after.QueueSound ∧ ∃ p, next = .holding p := by
    intro next after taken stays
    have goes : stopRequested = false := by
      cases told : stopRequested with
      | false => rfl
      | true =>
        rw [told] at taken
        cases taken
        exact absurd rfl stays
    exact sound.of_acquire (running goes) (acquire_of_step taken stays)
  cases step_move taken with
  | leave | discard | expire | keep | pass => exact ⟨sound, by intro impossible; cases impossible⟩
  | starve scheduler =>
    obtain ⟨-, p, impossible⟩ := acquired taken (by decide)
    cases impossible
  | acquire scheduler here state =>
    exact ⟨(acquired taken (by intro impossible; cases impossible)).1, by intro impossible; cases impossible⟩
  | look | drop | announce => exact ⟨sound.notify.1.toQueueSound, by intro impossible; cases impossible⟩
  | throw | loadFails => exact absurd rfl lives
  | emplace => exact absurd rfl (quiet _ _ _).2
  | publish | finishLoad => exact absurd rfl (quiet _ _ _).1
  | @finish p process result ctx found alive began =>
    have frame := beginInstruction_frame (os.context process)
    rw [began] at frame
    exact ⟨sound.of_written (absent p rfl) (sound.numbered.update found frame)
      (fun _ other => os.process?_update_other ctx other) rfl, by intro impossible; cases impossible⟩
  | halt | fail | yield | giveBack =>
    exact ⟨sound.modifyProcess (absent _ rfl) (fun _ => rfl), by intro impossible; cases impossible⟩
  | @preempt p process here running scheduler =>
    obtain ⟨other, present, released⟩ := Option.map_eq_some_iff.mp taken
    cases here.symm.trans present
    rw [release_preempt here running, sound.ids p process here] at released
    cases released
    exact ⟨sound.preempted here (absent p rfl), by intro impossible; cases impossible⟩

end CoreLoop

/-- How many steps a core takes at most before it begins an instruction or waits for a process. -/
def CoreState.distance : CoreState → Nat
  | .executed _ _ => 5
  | .releasing _ _ => 4
  | .notifying | .idle => 3
  | .seeking => 2
  | .holding _ => 1
  | .loading _ _ _ | .exited | .terminated => 0

/-- How many actions of the caller a call of `run` still needs. -/
def RunPhase.distance : RunPhase → Nat
  | .waiting => 2
  | .stopping => 1
  | .idle => 0

/-- A core comes closer with every step but the one that executes an instruction. -/
theorem CoreMove.distance {files : FileSystem} {stopRequested : Bool} {os after : VirtualOS} {state next : CoreState}
    (move : CoreMove files stopRequested os state next after) (lives : next ≠ .terminated) (busy : next ≠ .idle)
    (goes : ∀ p, state = .holding p → next ≠ .releasing p false)
    (quiet : ∀ p child stage, state ≠ .loading p child stage ∧ next ≠ .loading p child stage) :
    next.distance < state.distance ∨ ∃ p result, state = .holding p ∧ next = .executed p result := by
  cases move with
  | leave stop top =>
    refine Or.inl ?_
    rcases top with rfl | rfl | ⟨p, rfl⟩ <;> simp [CoreState.distance]
  | starve => exact absurd rfl busy
  | throw | loadFails => exact absurd rfl lives
  | discard => exact absurd rfl (goes _ rfl)
  | emplace => exact absurd rfl (quiet _ _ _).2
  | publish | finishLoad => exact absurd rfl (quiet _ _ _).1
  | finish => exact Or.inr ⟨_, _, rfl, rfl⟩
  | acquire | look | halt | fail | yield | expire | keep | preempt | pass | giveBack | drop | announce =>
    exact Or.inl (by simp [CoreState.distance])

/-- An action of a call of `run` that is under way. -/
def Action.Continues {κ : Type} : Action κ → Prop
  | .core _ | .stop | .join => True
  | _ => False

instance {κ : Type} : (action : Action κ) → Decidable action.Continues
  | .core _ | .stop | .join => isTrue trivial
  | .load _ | .step _ _ | .start => isFalse (fun impossible => impossible)

namespace Machine

variable {κ : Type}

/-- The process has executed its last instruction. -/
def HasEnded (machine : Machine κ) (p : ProcessRef) : Prop :=
  (∃ process, machine.Finished p process) ∨ ∃ c result, machine.cores c = .executed p result ∧ result.Ends

/-- A machine whose processes end after so many instructions, in a call of `run`. -/
structure Ending (sources : List Text) (left : ProcessRef → Nat) (machine : Machine κ) : Prop where
  lives : machine.terminated = false
  scheduled : machine.Scheduled sources
  announced : machine.Announced
  queue : machine.os.QueueSound
  running : machine.phase = .waiting → machine.os.scheduler.running = true
  ends : ∀ p process, machine.process? p = some process →
    machine.HasEnded p ∨ (machine.os.context process).WillEnd (left p)
  halted : machine.phase ≠ .waiting → machine.os.processTable.allHalted = true

/-- How many steps there are still to take at most. -/
def toDo [Fintype κ] (machine : Machine κ) (left : ProcessRef → Nat) : Nat :=
  5 * ∑ p ∈ Finset.range machine.os.processTable.processes.length, left p + ∑ c, (machine.cores c).distance +
    machine.phase.distance

variable {sources : List Text} {left : ProcessRef → Nat} {machine next : Machine κ} {files : FileSystem} {c : κ}
  {p q : ProcessRef} {process : ProcessControlBlock} {state : CoreState} {os : VirtualOS}

/-- A core that is about to execute an instruction holds a process that has not ended. -/
theorem Scheduled.not_ended (scheduled : machine.Scheduled sources) (holding : machine.cores c = .holding p) :
    ¬ machine.HasEnded p := by
  have holds : machine.Holds c p := by rw [Holds, holding]; rfl
  rintro (⟨process, finished⟩ | ⟨d, result, executed, -⟩)
  · obtain ⟨preempt, releasing⟩ := finished.released c holds
    rw [holding] at releasing
    cases releasing
  · obtain rfl := scheduled.distinct d c p (by rw [Holds, executed]; rfl) holds
    rw [holding] at executed
    cases executed

theorem Scheduled.not_discarded (scheduled : machine.Scheduled sources) (holding : machine.cores c = .holding p)
    (found : machine.process? p = some process) : ¬ (process.context.halted = true ∨ process.state = .Halted) := by
  have holds : machine.Holds c p := by rw [Holds, holding]; rfl
  obtain ⟨_, _, _, _, _, _, _, _, stage⟩ := scheduled.follows p process found
  obtain ⟨-, clear, alive⟩ := stage.of_holding (fun d holdsToo => scheduled.distinct d c p holdsToo holds) holding
  rw [clear]
  exact not_or.mpr ⟨Bool.false_ne_true, alive⟩

theorem Scheduled.sound (scheduled : machine.Scheduled sources) : machine.Sound :=
  ⟨scheduled.toExclusive, scheduled.separate⟩

theorem Scheduled.keepsHalted (scheduled : machine.Scheduled sources)
    (contained : ∀ p initial, VirtualOS.initial? sources p = some initial → initial.SelfContained) :
    machine.KeepsHalted files (.core c) := by
  show (machine.cores c).KeepsHalted files machine.os
  cases here : machine.cores c with
  | holding p =>
    intro process found alive path load
    rw [scheduled.not_loading contained here found] at load
    cases load
  | loading p child stage => exact absurd here (scheduled.quiet c p child stage)
  | seeking | idle | executed | releasing | notifying | exited | terminated => trivial

/-- Where a process is does not change by a step of a core, unless the core executes it. -/
theorem Scheduled.view_of_core (scheduled : machine.Scheduled sources)
    (contained : ∀ p initial, VirtualOS.initial? sources p = some initial → initial.SelfContained)
    (move : CoreMove files machine.stopRequested machine.os (machine.cores c) state os) (lives : state ≠ .terminated)
    (other : ∀ result, machine.cores c = .holding q → state ≠ .executed q result)
    (found : machine.process? q = some process) :
    ∃ after, os.process? q = some after ∧ SameView (os.context after) (machine.os.context process) := by
  have quiet := scheduled.quiet c
  have noLoad : ∀ p process, machine.cores c = .holding p → machine.os.process? p = some process →
      (machine.os.context process).loadPath? = none := fun p process => scheduled.not_loading contained
  by_cases touched : (machine.cores c).held = some q ∨ state.held = some q
  · have written : ∀ (f : ProcessControlBlock → ProcessControlBlock),
        (machine.os.modifyProcess q f).process? q = some (f process) := fun f =>
      (machine.os.process?_modifyProcess_same f).trans (congrArg (Option.map f) found)
    generalize before : machine.cores c = old at move
    rw [before] at touched other quiet noLoad
    have mine : ∀ {p : ProcessRef}, some p = some q ∨ some p = some q → p = q :=
      fun same => Option.some.inj (same.elim id id)
    have mineAfter : ∀ {p : ProcessRef}, none = some q ∨ some p = some q → p = q :=
      fun same => Option.some.inj (same.resolve_left (by intro impossible; cases impossible))
    have mineBefore : ∀ {p : ProcessRef}, some p = some q ∨ none = some q → p = q :=
      fun same => Option.some.inj (same.resolve_right (by intro impossible; cases impossible))
    cases move with
    | starve | look | announce => exact nomatch touched.elim id id
    | throw | loadFails => exact absurd rfl lives
    | publish | finishLoad => exact absurd rfl (quiet _ _ _)
    | emplace here alive load =>
      rw [noLoad _ _ rfl here] at load
      cases load
    | finish here alive began =>
      obtain rfl := mine touched
      exact absurd rfl (other _ rfl)
    | leave => exact ⟨process, found, .refl _⟩
    | discard | expire | keep | pass | drop => exact ⟨process, found, ⟨rfl, rfl, rfl, rfl, fun _ _ => rfl⟩⟩
    | acquire =>
      obtain rfl := mineAfter touched
      exact ⟨_, written _, ⟨rfl, rfl, rfl, rfl, fun _ _ => rfl⟩⟩
    | halt | fail | yield =>
      obtain rfl := mine touched
      exact ⟨_, written _, ⟨rfl, rfl, rfl, rfl, fun _ _ => rfl⟩⟩
    | preempt | giveBack =>
      obtain rfl := mineBefore touched
      exact ⟨_, written _, ⟨rfl, rfl, rfl, rfl, fun _ _ => rfl⟩⟩
  · obtain ⟨notBefore, notAfter⟩ := not_or.mp touched
    obtain ⟨p, apartFrom, apart⟩ := move.apart_other scheduled.separate notBefore notAfter
      (fun p process holding here _ path load => nomatch (noLoad p process holding here).symm.trans load)
      (fun p child loading => absurd loading (quiet p child _))
    refine ⟨process, (apart.kept q apartFrom (VirtualOS.lt_length_of_process? found)).trans found, rfl, rfl, rfl, ?_,
      fun k inside => apart.bytes q process apartFrom found k inside⟩
    exact (Allocated.size apart.separate).trans (Allocated.size scheduled.separate).symm

/-- Only a step of the caller and a step of a core can strand a process. -/
theorem unstranding_of_not_step {action : Action κ} (noStep : ∀ id steps, action ≠ .step id steps)
    (noCore : ∀ c, action ≠ .core c) : machine.Unstranding files action := by
  cases action with
  | step id steps => exact absurd rfl (noStep id steps)
  | core c => exact absurd rfl (noCore c)
  | load | start | stop | join => exact ⟨fun child none => (nomatch none), fun call none => nomatch none⟩

variable [DecidableEq κ] [Fintype κ]

theorem HasEnded.core (ended : machine.HasEnded p) (scheduled : machine.Scheduled sources)
    (contained : ∀ p initial, VirtualOS.initial? sources p = some initial → initial.SelfContained)
    (taken : machine.step files (.core c) = some next) : next.HasEnded p := by
  have keeps : machine.KeepsHalted files (.core c) := scheduled.keepsHalted contained
  rcases ended with ⟨process, finished⟩ | ⟨d, result, executed, ends⟩
  · exact Or.inl ⟨process, (finished.step scheduled.sound keeps taken).1⟩
  · by_cases same : d = c
    · subst same
      exact Or.inl (Finished.of_ends scheduled.sound keeps taken ⟨result, executed, ends⟩)
    · exact Or.inr ⟨d, result, (cores_step_other taken same).trans executed, ends⟩

namespace Ending

omit [DecidableEq κ] [Fintype κ] in
/-- What a core executes neither throws nor loads. -/
theorem core_lives (ending : machine.Ending sources left)
    (contained : ∀ p initial, VirtualOS.initial? sources p = some initial → initial.SelfContained)
    (move : CoreMove files machine.stopRequested machine.os (machine.cores c) state os) : state ≠ .terminated := by
  rintro rfl
  generalize before : machine.cores c = old at move
  cases move with
  | throw found alive began =>
    have ends := (ending.ends _ _ found).resolve_left (ending.scheduled.not_ended before)
    obtain ⟨result, after, finished⟩ := ends.finishes (ending.scheduled.separate.fitting found)
    cases began.symm.trans finished
  | loadFails found alive load =>
    rw [ending.scheduled.not_loading contained before found] at load
    cases load

/-- The scheduler runs until the cores are told to stop. -/
theorem schedules (ending : machine.Ending sources left) (taken : machine.step files (.core c) = some next)
    (goes : machine.stopRequested = false) : machine.os.scheduler.running = true := by
  cases phase : machine.phase with
  | waiting => exact ending.running phase
  | stopping =>
    rw [ending.announced.told phase] at goes
    cases goes
  | idle =>
    have moved := core_step taken
    rw [ending.scheduled.idle phase c] at moved
    cases moved

omit [DecidableEq κ] [Fintype κ] in
theorem unstranding (ending : machine.Ending sources left)
    (contained : ∀ p initial, VirtualOS.initial? sources p = some initial → initial.SelfContained) {action : Action κ}
    (continues : action.Continues) : machine.Unstranding files action := by
  cases action with
  | core c =>
    have keeps : machine.KeepsHalted files (.core c) := ending.scheduled.keepsHalted contained
    exact ⟨ending.scheduled.sound.publishesUnheld keeps, fun call none => nomatch none⟩
  | load | step | start => exact continues.elim
  | stop | join => exact ⟨fun child none => (nomatch none), fun call none => nomatch none⟩

/-- Every step of a core leaves less to do. -/
theorem core (ending : machine.Ending sources left)
    (contained : ∀ p initial, VirtualOS.initial? sources p = some initial → initial.SelfContained)
    (taken : machine.step files (.core c) = some next) :
    ∃ left', next.Ending sources left' ∧ next.toDo left' < machine.toDo left := by
  have moved := core_step taken
  have flags := flags_of_core taken
  have scheduled := ending.scheduled
  have unstranding : machine.Unstranding files (.core c) := ending.unstranding contained trivial
  have announced := ending.announced.step unstranding taken ending.lives
  have ended : ∀ p, machine.HasEnded p → next.HasEnded p := fun p ended => ended.core scheduled contained taken
  have running := ending.schedules taken
  cases step_move taken with
  | @core c state os move =>
    have lives : state ≠ .terminated := ending.core_lives contained move
    have alive : decide (state = .terminated) = false := decide_eq_false lives
    have after := scheduled.core contained taken alive
    obtain ⟨still, length⟩ :=
      move.stays_quiet (scheduled.quiet c) fun p process holding found _ =>
        scheduled.not_loading contained holding found
    dsimp only at moved
    rw [Function.update_self] at moved
    have quiet : ∀ p child stage, machine.cores c ≠ .loading p child stage ∧ state ≠ .loading p child stage :=
      fun p child stage => ⟨scheduled.quiet c p child stage, still p child stage⟩
    obtain ⟨queue, busy⟩ := CoreLoop.step_queueSound moved ending.queue (scheduled.consistent c) running quiet lives
    have schedulers : os.scheduler.running = machine.os.scheduler.running := congrArg Prod.snd flags
    have steps : ∑ d, (Function.update machine.cores c state d).distance + (machine.cores c).distance =
        ∑ d, (machine.cores d).distance + state.distance := by
      rw [← Finset.sum_update_add (Finset.mem_univ c) (fun d => (machine.cores d).distance) state.distance]
      congr 1
      exact Finset.sum_congr rfl fun d _ => Function.apply_update (fun _ (state : CoreState) => state.distance) _ _ _ d
    -- A process that the core does not execute is where it was.
    have unmoved : ∀ q after, os.process? q = some after →
        (∀ result, machine.cores c = .holding q → state ≠ .executed q result) →
          machine.HasEnded q ∨ (os.context after).WillEnd (left q) := by
      intro q after found other
      obtain ⟨process, before⟩ := machine.os.exists_process? (length ▸ VirtualOS.lt_length_of_process? found)
      obtain ⟨same, here, view⟩ := scheduled.view_of_core contained move lives other before
      cases here.symm.trans found
      exact (ending.ends q process before).imp_right fun ends => ends.of_view view
    have ofEnds : ∀ left', (∀ q process, os.process? q = some process →
        machine.HasEnded q ∨ (∃ result, state = .executed q result ∧ result.Ends) ∨
          (os.context process).WillEnd (left' q)) →
          ({ machine with
            os := os
            cores := Function.update machine.cores c state
            terminated := decide (state = .terminated) } : Machine κ).Ending sources left' := by
      intro left' ends
      refine ⟨alive, after, announced, queue, fun waiting => schedulers.trans (ending.running waiting),
        fun q process found => ?_, fun other => ?_⟩
      · rcases ends q process found with before | ⟨result, rfl, last⟩ | later
        · exact Or.inl (ended q before)
        · exact Or.inl (Or.inr ⟨c, result, Function.update_self .., last⟩)
        · exact Or.inr later
      · have all := ProcessTable.allHalted_iff.mp (ending.halted other)
        exact ProcessTable.allHalted_iff.mpr fun q process found => move.stays_halted (scheduled.consistent c) all found
    have noDiscard : ∀ p, machine.cores c = .holding p → state ≠ .releasing p false := by
      rintro p holding rfl
      generalize before : machine.cores c = old at move
      cases move with
      | discard found halted => exact scheduled.not_discarded before found halted
      | _ => exact nomatch before.symm.trans holding
    rcases move.distance lives busy noDiscard quiet with closer | ⟨p, result, holding, rfl⟩
    · refine ⟨left, ofEnds left fun q process found => ?_, ?_⟩
      · refine (unmoved q process found fun result holding executed => ?_).imp_right Or.inr
        rw [holding, executed] at closer
        exact absurd closer (by simp [CoreState.distance])
      · simp only [toDo, length]
        omega
    · have going := scheduled.not_ended holding
      rw [holding] at move steps unmoved
      cases move with
      | finish found alive began =>
        have inside := Finset.mem_range.mpr (VirtualOS.lt_length_of_process? found)
        have ends := (ending.ends p _ found).resolve_left going
        have fewer := Finset.sum_update_add inside left (left p - 1)
        have positive := ends.positive
        refine ⟨Function.update left p (left p - 1), ofEnds _ fun q process here => ?_, ?_⟩
        · by_cases same : q = p
          · subst same
            rw [VirtualOS.process?_update_same _ _ found] at here
            cases here
            by_cases last : result.Ends
            · exact Or.inr (Or.inl ⟨result, rfl, last⟩)
            · rw [Function.update_self]
              exact Or.inr (Or.inr (ends.next (scheduled.separate.fitting found) began last))
          · rw [Function.update_of_ne same]
            refine (unmoved q process here fun other holding => ?_).imp_right Or.inr
            cases holding
            exact absurd rfl same
        · have far : (CoreState.executed p result).distance = 5 := rfl
          have near : (CoreState.holding p).distance = 1 := rfl
          simp only [toDo, length]
          omega

/-- The caller goes on. -/
theorem caller (ending : machine.Ending sources left)
    (contained : ∀ p initial, VirtualOS.initial? sources p = some initial → initial.SelfContained) {action : Action κ}
    (calls : action = .stop ∨ action = .join) (taken : machine.step files action = some next) :
    next.Ending sources left ∧ next.toDo left < machine.toDo left := by
  have schedules : action.Schedules := by rcases calls with rfl | rfl <;> trivial
  have continues : action.Continues := by rcases calls with rfl | rfl <;> trivial
  have announced := ending.announced.step (ending.unstranding contained continues) taken ending.lives
  have scheduled := ending.scheduled.step contained schedules taken
  rcases calls with rfl | rfl
  · cases step_move taken with
    | stop waiting halted =>
      refine ⟨⟨ending.lives, scheduled ending.lives, announced, ?_, (fun impossible => nomatch impossible), ?_,
        fun _ => halted⟩, ?_⟩
      · exact ⟨ending.queue.ids, ending.queue.nextId, ending.queue.nodup, ending.queue.ready⟩
      · intro p process found
        rcases ending.ends p process found with (⟨process, finished⟩ | executed) | later
        · exact Or.inl (Or.inl ⟨process, finished.found, finished.halted, finished.released⟩)
        · exact Or.inl (Or.inr executed)
        · exact Or.inr (later.of_view ⟨rfl, rfl, rfl, rfl, fun _ _ => rfl⟩)
      · simp [toDo, waiting, RunPhase.distance]
  · cases step_move taken with
    | join stopping exited =>
      have halted := ending.halted (by rw [stopping]; decide)
      refine ⟨⟨ending.lives, scheduled ending.lives, announced, ending.queue, (fun impossible => nomatch impossible),
        ?_, fun _ => halted⟩, ?_⟩
      · intro p process found
        rcases ending.ends p process found with (⟨process, finished⟩ | executed) | later
        · exact Or.inl (Or.inl ⟨process, finished.found, finished.halted, finished.released⟩)
        · exact Or.inl (Or.inr executed)
        · exact Or.inr later
      · simp [toDo, stopping, RunPhase.distance]

end Ending

end Machine

namespace VirtualOS

variable {os : VirtualOS} {sources : List Text} {p : ProcessRef} {process : ProcessControlBlock}

theorem QueueSound.loadProgramFromSource (sound : os.QueueSound) (source : Text) :
    (os.loadProgramFromSource source).2.QueueSound := by
  rcases os.loadProgramFromSource_cases source with ⟨physical, -, same⟩ | ⟨program, layout, physical, -, -, published⟩
  · rw [same]
    exact ⟨sound.ids, sound.nextId, sound.nodup, sound.ready⟩
  · rw [published]
    exact (sound.published physical layout).1.toQueueSound

theorem QueueSound.loadAll (sound : os.QueueSound) (sources : List Text) : (os.loadAll sources).QueueSound := by
  induction sources generalizing os with
  | nil => exact sound
  | cons source rest ih => exact ih (sound.loadProgramFromSource source)

theorem loadAll_flags (os : VirtualOS) (sources : List Text) : (os.loadAll sources).flags = os.flags := by
  induction sources generalizing os with
  | nil => rfl
  | cons source rest ih => exact (ih _).trans (os.loadProgramFromSource_flags source)

end VirtualOS

namespace Machine

variable {κ : Type} [DecidableEq κ] [Fintype κ] {files : FileSystem} {sources : List Text} {machine next : Machine κ}
  {left : ProcessRef → Nat}

namespace Ending

/-- The start of `run`, once the programs are loaded. -/
theorem start {quantum : Nat} {input : List Word} (fits : ∀ source ∈ sources, VirtualOS.SourceFits source)
    (contained : ∀ p initial, VirtualOS.initial? sources p = some initial → initial.SelfContained)
    (ends : ∀ p initial, VirtualOS.initial? sources p = some initial → initial.EndsAfter (left p))
    (taken : ({ os := (VirtualOS.create quantum input).loadAll sources } : Machine κ).step files .start =
      some machine) :
    machine.Ending sources left ∧
      machine.toDo left = 5 * ∑ p ∈ Finset.range machine.os.processTable.processes.length,
        left p + 2 * Fintype.card κ + 2 := by
  have loaded : ({ os := (VirtualOS.create quantum input).loadAll sources } : Machine κ).Scheduled sources :=
    .loaded fits
  have schedules : (Action.start : Action κ).Schedules := trivial
  have scheduled := loaded.step contained schedules taken
  have queue := (VirtualOS.QueueExact.create quantum input).toQueueSound.loadAll sources
  have running : ((VirtualOS.create quantum input).loadAll sources).scheduler.running = true :=
    congrArg Prod.snd ((VirtualOS.create quantum input).loadAll_flags sources)
  have announced : machine.Announced := by
    have ran : Machine.run files (boot quantum input : Machine κ) (sources.map .load ++ [.start]) = some machine := by
      rw [boot, run_loads]
      exact run_cons_iff.mpr ⟨machine, taken, rfl⟩
    refine announced_of_run (guarded_of_mem (fun action member reached => ?_) _) ran
    rcases List.mem_append.mp member with load | start
    · obtain ⟨source, -, rfl⟩ := List.mem_map.mp load
      exact unstranding_of_not_step (by intro _ _ impossible; cases impossible)
        (by intro _ impossible; cases impossible)
    · cases List.mem_singleton.mp start
      exact unstranding_of_not_step (by intro _ _ impossible; cases impossible)
        (by intro _ impossible; cases impossible)
  cases step_move taken with
  | start idle =>
    refine ⟨⟨rfl, scheduled rfl, announced, ?_, fun _ => running, fun p process found => Or.inr ?_,
      fun other => absurd rfl other⟩, ?_⟩
    · have notified := queue.notify.1.toQueueSound
      exact ⟨notified.ids, notified.nextId, notified.nodup, notified.ready⟩
    · obtain ⟨initial, start, view⟩ := VirtualOS.initial?_view found
      exact ⟨initial, view, ends p initial start, contained p initial start⟩
    · simp [toDo, CoreState.distance, RunPhase.distance, Finset.sum_const, Nat.mul_comm]

/-- Everything that a call of `run` does leaves less to do. -/
theorem step (ending : machine.Ending sources left)
    (contained : ∀ p initial, VirtualOS.initial? sources p = some initial → initial.SelfContained) {action : Action κ}
    (continues : action.Continues) (taken : machine.step files action = some next) :
    ∃ left', next.Ending sources left' ∧ next.toDo left' < machine.toDo left := by
  cases action with
  | load | step | start => exact continues.elim
  | core c => exact ending.core contained taken
  | stop => exact ⟨left, ending.caller contained (Or.inl rfl) taken⟩
  | join => exact ⟨left, ending.caller contained (Or.inr rfl) taken⟩

theorem run {actions : List (Action κ)} (ending : machine.Ending sources left)
    (contained : ∀ p initial, VirtualOS.initial? sources p = some initial → initial.SelfContained)
    (continues : ∀ action ∈ actions, action.Continues) (ran : Machine.run files machine actions = some next) :
    ∃ left', next.Ending sources left' ∧ actions.length + next.toDo left' ≤ machine.toDo left := by
  have decreases : ∀ n (reached : Machine κ) action after,
      (∃ left, reached.Ending sources left ∧ reached.toDo left = n) → action.Continues →
      reached.step files action = some after → ∃ m, m < n ∧ ∃ left, after.Ending sources left ∧
        after.toDo left = m := by
    rintro n reached action after ⟨left, ending, rfl⟩ continues taken
    obtain ⟨left', ending', less⟩ := ending.step contained continues taken
    exact ⟨_, less, left', ending', rfl⟩
  obtain ⟨_, bound, left', ending', rfl⟩ := run_length_le decreases ⟨left, ending, rfl⟩
    (guarded_of_mem (fun action member _ => continues action member) machine) ran
  exact ⟨left', ending', bound⟩

/-- A call of `run` on programs that have been loaded. -/
theorem of_run {quantum : Nat} {input : List Word} {rest : List (Action κ)}
    (fits : ∀ source ∈ sources, VirtualOS.SourceFits source)
    (contained : ∀ p initial, VirtualOS.initial? sources p = some initial → initial.SelfContained)
    (ends : ∀ p initial, VirtualOS.initial? sources p = some initial → initial.EndsAfter (left p))
    (continues : ∀ action ∈ rest, action.Continues)
    (ran : Machine.run files (boot quantum input) (sources.map .load ++ .start :: rest) = some machine) :
    (∃ left', machine.Ending sources left') ∧ rest.length ≤
      5 * ∑ p ∈ Finset.range ((VirtualOS.create quantum input).loadAll sources).processTable.processes.length, left p +
        2 * Fintype.card κ + 2 := by
  rw [boot, run_loads] at ran
  obtain ⟨started, taken, remaining⟩ := run_cons_iff.mp ran
  obtain ⟨ending, toDo⟩ := start fits contained ends taken
  have same : started.os.processTable = ((VirtualOS.create quantum input).loadAll sources).processTable := by
    cases step_move taken with
    | start => rfl
  obtain ⟨left', last, bound⟩ := ending.run contained continues remaining
  rw [toDo, same] at bound
  exact ⟨⟨left', last⟩, Nat.le_of_add_right_le bound⟩

end Ending

end Machine

open StateTransition Source

namespace Source.Meaning

end Source.Meaning

namespace Machine

variable {κ : Type} [DecidableEq κ] [Fintype κ]

omit [DecidableEq κ] [Fintype κ] in
/-- What each process has come to when a call of `run` is over. -/
theorem Ending.returned {sources : List Text} {meanings : List Meaning} {left : ProcessRef → Nat} {machine : Machine κ}
    (ending : machine.Ending sources left) (runnable : List.Forall₂ Runnable sources meanings)
    (room : sources.length ≤ VirtualOS.processCapacity) (contained : ∀ meaning ∈ meanings, meaning.SelfContained)
    (idle : machine.phase = .idle) {p : ProcessRef} {meaning : Meaning} (here : meanings[p]? = some meaning) :
    ∃ process last final, machine.process? p = some process ∧ process.state = .Halted ∧
      ProcessModel.Finishes meaning.commands meaning.start last final ∧ (machine.os.context process).Shows final ∧
      printed machine.os.output process.id = final.printed := by
  obtain ⟨process, n, last, final, found, ran, shows', print, halted⟩ :=
    ending.scheduled.runs_as_written runnable room contained here
  have isHalted : process.state = .Halted :=
    ProcessTable.allHalted_iff.mp (ending.halted (by rw [idle]; decide)) p process found
  exact ⟨process, last, final, found, isHalted, ⟨reaches_of_after ran, halted isHalted⟩, shows', print⟩

end Machine

end VirtualMachine
