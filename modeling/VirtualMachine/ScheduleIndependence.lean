import VirtualMachine.MutualExclusion
import VirtualMachine.Os.Alone

namespace VirtualMachine

open TransitionSystem ExecutionContext

/-- An action of a call of `run`. -/
def Action.Schedules {κ : Type} : Action κ → Prop
  | .load _ | .step _ _ => False
  | _ => True

instance {κ : Type} : (action : Action κ) → Decidable action.Schedules
  | .load _ | .step _ _ => isFalse (fun impossible => impossible)
  | .start | .stop | .join | .core _ => isTrue trivial

/-- How far a process has got whose last instruction has returned `last`: it
goes on, or a core has yet to write down that it has ended, or it is halted. -/
inductive Stage {κ : Type} (cores : κ → CoreState) (p : ProcessRef) (process : ProcessControlBlock)
    (last : ExecutionResult) : Prop
  | going (alive : ¬ last.Ends) (halted : process.context.halted = false) (state : process.state ≠ .Halted)
      (executed : ∀ c result, cores c = .executed p result → ¬ result.Ends)
  | ending {c : κ} (ends : last.Ends) (executed : cores c = .executed p last)
  | ended (ends : last.Ends) (halted : process.state = .Halted)
      (released : ∀ c, (cores c).held = some p → ∃ preempt, cores c = .releasing p preempt)

namespace Stage

variable {κ : Type} [DecidableEq κ] {cores : κ → CoreState} {c : κ} {state : CoreState} {p : ProcessRef}
  {process after : ProcessControlBlock} {last : ExecutionResult}

/-- A step of a core that has nothing to do with the process. -/
theorem other (stage : Stage cores p process last) (notBefore : (cores c).held ≠ some p)
    (notAfter : state.held ≠ some p) :
    Stage (Function.update cores c state) p process last := by
  cases stage with
  | going alive halted notHalted executed =>
    refine .going alive halted notHalted fun d result here => ?_
    by_cases same : d = c
    · subst same
      rw [Function.update_self] at here
      exact absurd (by rw [here]; rfl) notAfter
    · rw [Function.update_of_ne same] at here
      exact executed d result here
  | @ending d ends executed =>
    have apart : d ≠ c := by
      rintro rfl
      exact notBefore (by rw [executed]; rfl)
    exact .ending ends ((Function.update_of_ne apart _ _).trans executed)
  | ended ends halted released =>
    refine .ended ends halted fun d holds => ?_
    by_cases same : d = c
    · subst same
      rw [Function.update_self] at holds
      exact absurd holds notAfter
    · rw [Function.update_of_ne same] at holds ⊢
      exact released d holds

/-- A process that goes on, after a step of the one core that deals with it. -/
theorem goes_on (alone : ∀ d, (cores d).held = some p → d = c) (alive : ¬ last.Ends)
    (halted : after.context.halted = false) (notHalted : after.state ≠ .Halted)
    (mine : ∀ result, state = .executed p result → ¬ result.Ends) :
    Stage (Function.update cores c state) p after last := by
  refine .going alive halted notHalted fun d result executed => ?_
  by_cases same : d = c
  · subst same
    rw [Function.update_self] at executed
    exact mine result executed
  · rw [Function.update_of_ne same] at executed
    exact absurd (alone d (by rw [executed]; rfl)) same

/-- The same for a process that is halted. -/
theorem stays_ended (alone : ∀ d, (cores d).held = some p → d = c) (ends : last.Ends) (halted : after.state = .Halted)
    (mine : state.held = some p → ∃ preempt, state = .releasing p preempt) :
    Stage (Function.update cores c state) p after last := by
  refine .ended ends halted fun d holds => ?_
  by_cases same : d = c
  · subst same
    rw [Function.update_self] at holds ⊢
    exact mine holds
  · rw [Function.update_of_ne same] at holds
    exact absurd (alone d holds) same

omit [DecidableEq κ]

/-- A core that is about to execute an instruction holds a process that goes on. -/
theorem of_holding (stage : Stage cores p process last) (alone : ∀ d, (cores d).held = some p → d = c)
    (holding : cores c = .holding p) :
    ¬ last.Ends ∧ process.context.halted = false ∧ process.state ≠ .Halted := by
  cases stage with
  | going alive halted notHalted executed => exact ⟨alive, halted, notHalted⟩
  | @ending d ends executed =>
    obtain rfl := alone d (by rw [executed]; rfl)
    rw [holding] at executed
    cases executed
  | ended ends halted released =>
    obtain ⟨preempt, releasing⟩ := released c (by rw [holding]; rfl)
    rw [holding] at releasing
    cases releasing

/-- A core that has executed one knows whether the process has ended. -/
theorem of_executed (stage : Stage cores p process last) (alone : ∀ d, (cores d).held = some p → d = c)
    {result : ExecutionResult} (here : cores c = .executed p result) :
    (¬ last.Ends ∧ ¬ result.Ends ∧ process.context.halted = false ∧ process.state ≠ .Halted) ∨
      last.Ends ∧ result = last := by
  cases stage with
  | going alive halted notHalted executed => exact Or.inl ⟨alive, executed c result here, halted, notHalted⟩
  | @ending d ends executed =>
    obtain rfl := alone d (by rw [executed]; rfl)
    rw [here] at executed
    cases executed
    exact Or.inr ⟨ends, rfl⟩
  | ended ends halted released =>
    obtain ⟨preempt, releasing⟩ := released c (by rw [here]; rfl)
    rw [here] at releasing
    cases releasing

theorem of_releasing (stage : Stage cores p process last) (alone : ∀ d, (cores d).held = some p → d = c)
    {preempt : Bool}
    (releasing : cores c = .releasing p preempt) :
    (¬ last.Ends ∧ process.context.halted = false ∧ process.state ≠ .Halted) ∨
      last.Ends ∧ process.state = .Halted := by
  cases stage with
  | going alive halted notHalted executed => exact Or.inl ⟨alive, halted, notHalted⟩
  | @ending d ends executed =>
    obtain rfl := alone d (by rw [executed]; rfl)
    rw [releasing] at executed
    cases executed
  | ended ends halted released => exact Or.inr ⟨ends, halted⟩

variable [DecidableEq κ]

/-- The core has executed an instruction after which the process goes on. -/
theorem of_continues (stage : Stage cores p process last) (alone : ∀ d, (cores d).held = some p → d = c)
    {result : ExecutionResult} (here : cores c = .executed p result) (continues : result ≠ .Halt ∧ result ≠ .Error)
    (flag : after.context.halted = process.context.halted) (kept : after.state = process.state)
    (mine : ∀ result, state ≠ .executed p result) : Stage (Function.update cores c state) p after last := by
  rcases stage.of_executed alone here with ⟨goes, _, notHalted, going⟩ | ⟨ends, rfl⟩
  · exact .goes_on alone goes (flag.trans notHalted) (kept ▸ going) (fun result same => absurd same (mine result))
  · exact absurd ends (not_or.mpr continues)

/-- The core lets a process go that is not halted. -/
theorem of_alive (stage : Stage cores p process last) (alone : ∀ d, (cores d).held = some p → d = c) {preempt : Bool}
    (releasing : cores c = .releasing p preempt) (alive : process.state ≠ .Halted)
    (flag : after.context.halted = process.context.halted) (notHalted : after.state ≠ .Halted)
    (mine : ∀ result, state ≠ .executed p result) : Stage (Function.update cores c state) p after last := by
  rcases stage.of_releasing alone releasing with ⟨goes, clear, _⟩ | ⟨_, halted⟩
  · exact .goes_on alone goes (flag.trans clear) notHalted (fun result same => absurd same (mine result))
  · exact absurd halted alive

end Stage

namespace CoreMove

variable {files : FileSystem} {stopRequested : Bool} {os after : VirtualOS} {state next : CoreState} {q : ProcessRef}

/-- What a step of a core prints. -/
theorem output_cases (move : CoreMove files stopRequested os state next after)
    (quiet : ∀ p child stage, state ≠ .loading p child stage) :
    after.output = os.output ∨ ∃ p process words, state = .holding p ∧ os.process? p = some process ∧
      after.output = os.output ++ List.map (fun value => (process.id, value)) words := by
  cases move with
  | leave | starve | acquire | look | discard | halt | fail | yield | expire | keep | preempt | pass | giveBack | drop
  | announce | loadFails | emplace => exact Or.inl rfl
  | @throw p process e ctx found alive began =>
    have frame := beginInstruction_frame (os.context process)
    rw [began] at frame
    obtain ⟨words, output⟩ := frame.output
    exact Or.inr ⟨p, process, words, rfl, found, output⟩
  | @finish p process result ctx found alive began =>
    have frame := beginInstruction_frame (os.context process)
    rw [began] at frame
    obtain ⟨words, output⟩ := frame.output
    exact Or.inr ⟨p, process, words, rfl, found, output⟩
  | publish | finishLoad => exact absurd rfl (quiet _ _ _)

/-- Without a load system call no core is about to load, and the table stays as long as it is. -/
theorem stays_quiet (move : CoreMove files stopRequested os state next after)
    (quiet : ∀ p child stage, state ≠ .loading p child stage)
    (noLoad : ∀ p process, state = .holding p → os.process? p = some process →
      process.context.halted = false ∧ process.state ≠ .Halted → (os.context process).loadPath? = none) :
    (∀ p child stage, next ≠ .loading p child stage) ∧
      after.processTable.processes.length = os.processTable.processes.length := by
  have length : (∀ p child stage, next ≠ .loading p child stage) →
      after.processTable.processes.length = os.processTable.processes.length := by
    intro still
    rcases move.grows with same | ⟨-, ⟨p, loading⟩, -⟩
    · exact same
    · exact absurd loading (still _ _ _)
  have still : ∀ p child stage, next ≠ .loading p child stage := by
    intro p child stage loading
    cases move with
    | emplace found alive load =>
      rw [noLoad _ _ rfl found alive] at load
      cases load
    | publish | finishLoad => exact quiet _ _ _ rfl
    | leave | starve | acquire | look | discard | throw | finish | loadFails | halt | fail | yield | expire | keep
    | preempt | pass | giveBack | drop | announce => cases loading
  exact ⟨still, length still⟩

end CoreMove

namespace Machine

variable {κ : Type}

/-- The process is where it gets alone after some number of instructions: its
registers and its memory are the same, and it has printed the same. -/
def Follows (sources : List Text) (machine : Machine κ) (p : ProcessRef) (process : ProcessControlBlock) : Prop :=
  ∃ initial n last reached, VirtualOS.initial? sources p = some initial ∧ initial.alone n = some (last, reached) ∧
    SameView (machine.os.context process) reached ∧
    printed machine.os.output process.id = printed reached.output process.id ∧ Stage machine.cores p process last

/-- The invariant of the runs of programs that have been loaded before. -/
structure Scheduled (sources : List Text) (machine : Machine κ) : Prop extends Exclusive machine where
  separate : machine.os.Separate
  ids : (machine.os.processTable.processes.map (fun process => process.id)).Nodup
  quiet : ∀ c p child stage, machine.cores c ≠ .loading p child stage
  follows : ∀ p process, machine.process? p = some process → machine.Follows sources p process
  complete : ∀ p initial, VirtualOS.initial? sources p = some initial → ∃ process, machine.process? p = some process

variable {sources : List Text} {machine next : Machine κ} {p : ProcessRef} {process after : ProcessControlBlock}

theorem Follows.of_view (follows : machine.Follows sources p process)
    (view : SameView (next.os.context after) (machine.os.context process))
    (output : printed next.os.output process.id = printed machine.os.output process.id)
    (stage : ∀ last, Stage machine.cores p process last → Stage next.cores p after last) :
    next.Follows sources p after := by
  obtain ⟨initial, n, last, reached, start, ran, same, print, here⟩ := follows
  have id : after.id = process.id := view.id
  exact ⟨initial, n, last, reached, start, ran, view.trans same, by rw [id, output, print], stage last here⟩

namespace Scheduled

/-- What is known of a process whose next instruction a core is about to execute. -/
theorem next_instruction (scheduled : machine.Scheduled sources)
    (contained : ∀ p initial, VirtualOS.initial? sources p = some initial → initial.SelfContained) {c : κ}
    (holding : machine.cores c = .holding p) (found : machine.process? p = some process) :
    ∃ initial n last reached, VirtualOS.initial? sources p = some initial ∧ initial.alone n = some (last, reached) ∧
      SameView (machine.os.context process) reached ∧
      printed machine.os.output process.id = printed reached.output process.id ∧ ¬ last.Ends ∧
      (machine.os.context process).fetch? = reached.fetch? ∧ ¬ (machine.os.context process).NextCalls .Scan ∧
      ¬ (machine.os.context process).NextCalls .Load := by
  obtain ⟨initial, n, last, reached, start, ran, same, print, stage⟩ := scheduled.follows p process found
  have holds : machine.Holds c p := by rw [Holds, holding]; rfl
  have alone : ∀ d, (machine.cores d).held = some p → d = c := fun d holdsToo => scheduled.distinct d c p holdsToo holds
  have goes : ¬ last.Ends := (stage.of_holding alone holding).1
  obtain ⟨inside, noScan, noLoad⟩ := contained p initial start n last reached ran goes
  have fetched : (machine.os.context process).fetch? = reached.fetch? := by
    refine same.fetch? (scheduled.separate.fitting found) ?_
    rw [same.registers, same.layout]
    exact inside
  refine ⟨initial, n, last, reached, start, ran, same, print, goes, fetched, ?_, ?_⟩
  · rw [NextCalls, fetched]
    exact noScan
  · rw [NextCalls, fetched]
    exact noLoad

theorem not_loading (scheduled : machine.Scheduled sources)
    (contained : ∀ p initial, VirtualOS.initial? sources p = some initial → initial.SelfContained) {c : κ}
    (holding : machine.cores c = .holding p) (found : machine.process? p = some process) :
    (machine.os.context process).loadPath? = none := by
  obtain ⟨_, _, _, _, _, _, _, _, _, _, _, noLoad⟩ := scheduled.next_instruction contained holding found
  exact loadPath?_of_not_calls noLoad

variable [DecidableEq κ] {files : FileSystem} {c : κ} {state : CoreState} {os : VirtualOS} {terminated : Bool}
  {q : ProcessRef}

/-- A core that has nothing to do with a process leaves it where it is. -/
theorem follows_other (scheduled : machine.Scheduled sources)
    (contained : ∀ p initial, VirtualOS.initial? sources p = some initial → initial.SelfContained)
    (move : CoreMove files machine.stopRequested machine.os (machine.cores c) state os)
    (notBefore : (machine.cores c).held ≠ some q) (notAfter : state.held ≠ some q)
    (found : machine.process? q = some process) :
    os.process? q = some process ∧ ({ machine with
        os := os, cores := Function.update machine.cores c state, terminated := terminated } : Machine κ).Follows
      sources q process := by
  obtain ⟨p, other, apart⟩ := move.apart_other scheduled.separate notBefore notAfter
    (fun p process holding here _ path load => nomatch (scheduled.not_loading contained holding here).symm.trans load)
    (fun p child loading => absurd loading (scheduled.quiet c p child _))
  refine ⟨(apart.kept q other (VirtualOS.lt_length_of_process? found)).trans found, ?_⟩
  refine (scheduled.follows q process found).of_view ?_ ?_ (fun last stage => stage.other notBefore notAfter)
  · have size := (Allocated.size apart.separate).trans (Allocated.size scheduled.separate).symm
    exact ⟨rfl, rfl, rfl, size, fun k inside => apart.bytes q process other found k inside⟩
  · rcases move.output_cases (scheduled.quiet c) with same | ⟨r, owner, words, holding, here, output⟩
    · exact congrArg (fun output => printed output process.id) same
    · have differ : owner.id ≠ process.id := by
        intro same
        have bound : r < (machine.os.processTable.processes.map (fun process => process.id)).length := by
          rw [List.length_map]
          exact VirtualOS.lt_length_of_process? here
        have atOwner : machine.os.processTable.processes[r]? = some owner := here
        have atProcess : machine.os.processTable.processes[q]? = some process := found
        obtain rfl : r = q := (List.getElem?_inj bound scheduled.ids).mp (by
          rw [List.getElem?_map, List.getElem?_map, atOwner, atProcess, Option.map_some, Option.map_some, same])
        exact notBefore (by rw [holding]; rfl)
      show printed os.output process.id = _
      rw [output, printed_append, if_neg differ, List.append_nil]

/-- The core that executes an instruction of a process brings it one
instruction further than it was, as it gets alone. -/
theorem follows_finish (scheduled : machine.Scheduled sources)
    (contained : ∀ p initial, VirtualOS.initial? sources p = some initial → initial.SelfContained)
    (holding : machine.cores c = .holding p) (found : machine.process? p = some process)
    (alive : process.context.halted = false ∧ process.state ≠ .Halted) {result : ExecutionResult}
    {ctx : ExecutionContext}
    (began : beginInstruction (machine.os.context process) = (.ok (.finished result), ctx)) :
    ({ machine with
        os := machine.os.update p ctx
        cores := Function.update machine.cores c (.executed p result)
        terminated := terminated } : Machine κ).Follows sources p ctx.process := by
  obtain ⟨initial, n, last, reached, start, ran, same, print, goes, fetched, noScan, noLoad⟩ :=
    scheduled.next_instruction contained holding found
  have holds : machine.Holds c p := by rw [Holds, holding]; rfl
  have alone : ∀ d, (machine.cores d).held = some p → d = c := fun d holdsToo => scheduled.distinct d c p holdsToo holds
  obtain ⟨outcome, view, words, mine, theirs⟩ := same.beginInstruction (scheduled.separate.fitting found) fetched noScan
  rw [began] at outcome view mine
  rcases ran' : beginInstruction reached with ⟨other, after⟩
  rw [ran'] at outcome view theirs
  dsimp only at outcome view mine theirs
  subst outcome
  have id : ctx.process.id = process.id := by
    have frame := beginInstruction_frame (machine.os.context process)
    rw [began] at frame
    exact frame.id
  have further : initial.alone (n + 1) = some (result, after) := by
    rw [ExecutionContext.alone, ran, Option.bind_some]
    exact aloneStep_finished goes ran'
  refine ⟨initial, n + 1, result, after, start, further, ?_, ?_, ?_⟩
  · exact ⟨view.id, view.layout, view.registers, view.size, view.bytes⟩
  · have sameId : reached.process.id = process.id := same.id.symm
    have shared : (machine.os.context process).process.id = process.id := rfl
    show printed ctx.output ctx.process.id = printed after.output ctx.process.id
    rw [mine, theirs, printed_append, printed_append, id, sameId, shared]
    exact congrArg (· ++ _) print
  · by_cases ends : result.Ends
    · exact .ending ends (Function.update_self _ _ _)
    · have outcome := beginInstruction_outcome (machine.os.context process)
      rw [began] at outcome
      cases outcome with
      | finished _ _ _ _ kept =>
        obtain ⟨state, halted⟩ := kept (fun halt => ends (Or.inl halt))
        refine .goes_on alone ends (halted.trans alive.1) (fun isHalted => alive.2 (state.symm.trans isHalted)) ?_
        intro other same
        cases same
        exact ends

/-- The core that holds a process executes it or writes down what has become of it. -/
theorem follows_own (scheduled : machine.Scheduled sources)
    (contained : ∀ p initial, VirtualOS.initial? sources p = some initial → initial.SelfContained)
    (move : CoreMove files machine.stopRequested machine.os (machine.cores c) state os) (lives : state ≠ .terminated)
    (holds : machine.Holds c p) (found : machine.process? p = some process) :
    ∃ after, os.process? p = some after ∧ ({ machine with
        os := os, cores := Function.update machine.cores c state, terminated := terminated } : Machine κ).Follows
      sources p after := by
  have alone : ∀ d, (machine.cores d).held = some p → d = c := fun d holdsToo => scheduled.distinct d c p holdsToo holds
  have quiet := scheduled.quiet c
  have follows := scheduled.follows p process found
  have same : ∀ {other : ProcessControlBlock}, machine.os.process? p = some other → other = process :=
    fun here => Option.some.inj (here.symm.trans found)
  have written : ∀ (f : ProcessControlBlock → ProcessControlBlock),
      (machine.os.modifyProcess p f).process? p = some (f process) := fun f =>
    (machine.os.process?_modifyProcess_same f).trans (congrArg (Option.map f) found)
  generalize before : machine.cores c = old at move
  rw [Holds, before] at holds
  cases move with
  | starve | look | announce | acquire => cases holds
  | throw | loadFails => exact absurd rfl lives
  | publish | finishLoad => exact absurd before (quiet _ _ _)
  | emplace here alive load =>
    cases holds
    obtain rfl := same here
    rw [scheduled.not_loading contained before found] at load
    cases load
  | finish here alive began =>
    cases holds
    obtain rfl := same here
    exact ⟨_, machine.os.process?_update_same _ here, scheduled.follows_finish contained before found alive began⟩
  | leave stop top =>
    rcases top with rfl | rfl | ⟨q, rfl⟩
    · cases holds
    · cases holds
    · cases holds
      refine ⟨process, found, follows.of_view (.refl _) rfl fun last stage => ?_⟩
      obtain ⟨goes, halted, notHalted⟩ := stage.of_holding alone before
      exact .goes_on alone goes halted notHalted (by intro result impossible; cases impossible)
  | discard here halted =>
    cases holds
    obtain rfl := same here
    obtain ⟨_, _, _, _, _, _, _, _, stage⟩ := follows
    obtain ⟨_, notHalted, alive⟩ := stage.of_holding alone before
    rw [notHalted] at halted
    exact absurd (halted.resolve_left Bool.false_ne_true) alive
  | @halt q other result here ended =>
    cases holds
    obtain rfl := same here
    refine ⟨_, written _, follows.of_view ⟨rfl, rfl, rfl, rfl, fun _ _ => rfl⟩ rfl fun last stage => ?_⟩
    rcases stage.of_executed alone before with ⟨_, continues, notHalted, _⟩ | ⟨ends, _⟩
    · rw [notHalted] at ended
      exact absurd (Or.inl (ended.resolve_right Bool.false_ne_true)) continues
    · exact .stays_ended alone ends rfl (fun _ => ⟨false, rfl⟩)
  | fail here alive =>
    cases holds
    obtain rfl := same here
    refine ⟨_, written _, follows.of_view ⟨rfl, rfl, rfl, rfl, fun _ _ => rfl⟩ rfl fun last stage => ?_⟩
    rcases stage.of_executed alone before with ⟨_, continues, _, _⟩ | ⟨ends, _⟩
    · exact absurd (Or.inr rfl) continues
    · exact .stays_ended alone ends rfl (fun _ => ⟨false, rfl⟩)
  | yield here alive continues =>
    cases holds
    obtain rfl := same here
    refine ⟨_, written _, follows.of_view ⟨rfl, rfl, rfl, rfl, fun _ _ => rfl⟩ rfl fun last stage => ?_⟩
    exact stage.of_continues alone before continues rfl rfl (by intro result impossible; cases impossible)
  | expire here alive continues | keep here alive continues =>
    cases holds
    obtain rfl := same here
    refine ⟨_, found, follows.of_view (.refl _) rfl fun last stage => ?_⟩
    exact stage.of_continues alone before continues rfl rfl (by intro result impossible; cases impossible)
  | preempt here running scheduler =>
    cases holds
    obtain rfl := same here
    refine ⟨_, written _, follows.of_view ⟨rfl, rfl, rfl, rfl, fun _ _ => rfl⟩ rfl fun last stage => ?_⟩
    exact stage.of_alive alone before (by rw [running]; decide) rfl (by intro impossible; cases impossible)
      (by intro result impossible; cases impossible)
  | pass here ready =>
    cases holds
    obtain rfl := same here
    have alive : _ ≠ ProcessState.Halted := fun halted => absurd (halted.symm.trans ready) (by decide)
    refine ⟨_, found, follows.of_view (.refl _) rfl fun last stage => ?_⟩
    exact stage.of_alive alone before alive rfl alive (by intro result impossible; cases impossible)
  | giveBack here alive =>
    cases holds
    obtain rfl := same here
    refine ⟨_, written _, follows.of_view ⟨rfl, rfl, rfl, rfl, fun _ _ => rfl⟩ rfl fun last stage => ?_⟩
    exact stage.of_alive alone before alive rfl (by intro impossible; cases impossible)
      (by intro result impossible; cases impossible)
  | drop here halted =>
    cases holds
    obtain rfl := same here
    refine ⟨_, found, follows.of_view ⟨rfl, rfl, rfl, rfl, fun _ _ => rfl⟩ rfl fun last stage => ?_⟩
    rcases stage.of_releasing alone before with ⟨_, _, going⟩ | ⟨ends, _⟩
    · exact absurd halted going
    · exact .stays_ended alone ends halted (by intro impossible; cases impossible)

/-- A core that takes a process leaves it where it is. -/
theorem follows_taken (scheduled : machine.Scheduled sources)
    (move : CoreMove files machine.stopRequested machine.os (machine.cores c) state os) (free : ¬ machine.Holds c p)
    (taken : state.held = some p) (found : machine.process? p = some process) :
    ∃ after, os.process? p = some after ∧ ({ machine with
        os := os, cores := Function.update machine.cores c state, terminated := terminated } : Machine κ).Follows
      sources p after := by
  generalize before : machine.cores c = old at move
  rw [Holds, before] at free
  cases move with
  | leave | starve | look | throw | loadFails | preempt | pass | giveBack | drop | announce => cases taken
  | discard | finish | emplace | publish | finishLoad | halt | fail | yield | expire | keep => exact absurd taken free
  | acquire scheduler here ready =>
    cases taken
    obtain rfl := Option.some.inj ((show machine.os.process? p = some process from found).symm.trans here)
    have unheld : ∀ d, (machine.cores d).held ≠ some p := by
      intro d holds
      obtain ⟨same, present, notReady⟩ := (scheduled.consistent d).held holds
      obtain rfl := Option.some.inj (present.symm.trans here)
      exact notReady ready
    refine ⟨_, (machine.os.process?_modifyProcess_same _).trans (congrArg (Option.map _) here),
      (scheduled.follows p process found).of_view ⟨rfl, rfl, rfl, rfl, fun _ _ => rfl⟩ rfl fun last stage => ?_⟩
    cases stage with
    | going alive halted notHalted executed =>
      exact .goes_on (fun d holds => absurd holds (unheld d)) alive halted (by intro impossible; cases impossible)
        (by intro result impossible; cases impossible)
    | @ending d ends executed => exact absurd (by rw [executed]; rfl) (unheld d)
    | ended ends halted released => exact absurd (halted.symm.trans ready) (by decide)

variable [Fintype κ]

theorem core (scheduled : machine.Scheduled sources)
    (contained : ∀ p initial, VirtualOS.initial? sources p = some initial → initial.SelfContained)
    (taken : machine.step files (.core c) = some next) (lives : next.terminated = false) : next.Scheduled sources := by
  have quiet := scheduled.quiet c
  have noLoad : ∀ p process, machine.cores c = .holding p → machine.os.process? p = some process →
      process.context.halted = false ∧ process.state ≠ .Halted → (machine.os.context process).loadPath? = none :=
    fun p process holding found _ => scheduled.not_loading contained holding found
  have unpublished : machine.PublishesUnheld (.core c) := by
    intro child published
    cases state : machine.cores c with
    | loading p loaded stage => exact absurd state (quiet p loaded stage)
    | _ => simp [published?, state] at published
  have exclusive := scheduled.toExclusive.step unpublished taken
  cases step_move taken with
  | @core c state os move =>
    have alive : state ≠ .terminated := of_decide_eq_false lives
    obtain ⟨still, length⟩ := move.stays_quiet quiet noLoad
    have nothingLoaded : ∀ p process, machine.cores c = .holding p → machine.os.process? p = some process →
        process.context.halted = false ∧ process.state ≠ .Halted → (machine.os.context process).LoadFits files := by
      intro p process holding found here path load
      rw [noLoad p process holding found here] at load
      cases load
    obtain ⟨_, apart⟩ := move.exists_apart scheduled.separate nothingLoaded
      (fun p child loading => absurd loading (quiet p child _))
    have follows : ∀ p process, machine.process? p = some process → ∃ after, os.process? p = some after ∧
        ({ machine with
          os := os, cores := Function.update machine.cores c state, terminated := decide (state = .terminated) } :
            Machine κ).Follows sources p after := by
      intro p process found
      by_cases holds : machine.Holds c p
      · exact scheduled.follows_own contained move alive holds found
      · by_cases taken : state.held = some p
        · exact scheduled.follows_taken move holds taken found
        · exact ⟨process, scheduled.follows_other contained move holds taken found⟩
    refine ⟨exclusive, apart.separate, ?_, fun d p child stage => ?_, fun p after found => ?_,
      fun p initial start => ?_⟩
    · have same := apart.ids.eq_of_length (by rw [List.length_map, List.length_map, length])
      exact same ▸ scheduled.ids
    · by_cases same : d = c
      · subst same
        simpa using still p child stage
      · simpa [Function.update_of_ne same] using scheduled.quiet d p child stage
    · have bound : p < machine.os.processTable.processes.length := length ▸ VirtualOS.lt_length_of_process? found
      obtain ⟨process, before⟩ := machine.os.exists_process? bound
      obtain ⟨other, here, there⟩ := follows p process before
      obtain rfl := Option.some.inj (here.symm.trans found)
      exact there
    · obtain ⟨process, before⟩ := scheduled.complete p initial start
      obtain ⟨after, here, -⟩ := follows p process before
      exact ⟨after, here⟩

/-- The actions of a call of `run` keep the invariant, unless an exception ends the program. -/
theorem step (scheduled : machine.Scheduled sources)
    (contained : ∀ p initial, VirtualOS.initial? sources p = some initial → initial.SelfContained)
    {action : Action κ} (schedules : action.Schedules) (taken : machine.step files action = some next)
    (lives : next.terminated = false) : next.Scheduled sources := by
  cases action with
  | load | step => exact schedules.elim
  | core c => exact scheduled.core contained taken lives
  | start =>
    have unpublished : machine.PublishesUnheld .start := fun child published => nomatch published
    have exclusive := scheduled.toExclusive.step unpublished taken
    cases step_move taken with
    | start idle =>
      refine ⟨exclusive, scheduled.separate, scheduled.ids, (by intro _ _ _ _ impossible; cases impossible),
        fun p process found => ?_, scheduled.complete⟩
      refine (scheduled.follows p process found).of_view ⟨rfl, rfl, rfl, rfl, fun _ _ => rfl⟩ rfl fun last stage => ?_
      cases stage with
      | going alive halted notHalted executed =>
        exact .going alive halted notHalted (by intro _ _ impossible; cases impossible)
      | @ending d ends executed => exact nomatch (scheduled.idle idle d).symm.trans executed
      | ended ends halted released => exact .ended ends halted (by intro _ impossible; cases impossible)
  | stop =>
    have unpublished : machine.PublishesUnheld .stop := fun child published => nomatch published
    have exclusive := scheduled.toExclusive.step unpublished taken
    cases step_move taken with
    | stop =>
      exact ⟨exclusive, scheduled.separate, scheduled.ids, scheduled.quiet, scheduled.follows, scheduled.complete⟩
  | join =>
    have unpublished : machine.PublishesUnheld .join := fun child published => nomatch published
    have exclusive := scheduled.toExclusive.step unpublished taken
    cases step_move taken with
    | join =>
      exact ⟨exclusive, scheduled.separate, scheduled.ids, scheduled.quiet, scheduled.follows, scheduled.complete⟩

omit [DecidableEq κ] [Fintype κ] in
/-- The machine once all programs are loaded. -/
theorem loaded {quantum : Nat} {input : List Word} (fits : ∀ source ∈ sources, VirtualOS.SourceFits source) :
    ({ os := (VirtualOS.create quantum input).loadAll sources } : Machine κ).Scheduled sources := by
  have fresh := (VirtualOS.Fresh.create quantum input).loadAll fits
  have reference : (VirtualOS.reference sources).Fresh := (VirtualOS.Fresh.create kDefaultTimeSlice []).loadAll fits
  have booted : VirtualOS.SameImage (VirtualOS.create quantum input) (VirtualOS.create kDefaultTimeSlice []) :=
    ⟨rfl, rfl, rfl⟩
  have image : VirtualOS.SameImage ((VirtualOS.create quantum input).loadAll sources) (VirtualOS.reference sources) :=
    booted.loadAll sources
  refine ⟨⟨(fun c d p held => nomatch held), fun _ => trivial, fun _ _ => rfl⟩, fresh.separate, fresh.distinct,
    (by intro _ _ _ _ impossible; cases impossible), fun p process found => ?_, fun p initial start => ?_⟩
  · obtain ⟨other, here, view⟩ := image.sameView found
    obtain ⟨ready, halted⟩ := fresh.ready process (List.mem_of_getElem? found)
    refine ⟨_, 0, .Continue, _, VirtualOS.initial?_eq_some.mpr ⟨other, here, rfl⟩, rfl, view, ?_, ?_⟩
    · show printed ((VirtualOS.create quantum input).loadAll sources).output process.id =
        printed (VirtualOS.reference sources).output process.id
      rw [fresh.output, reference.output]
    · exact .going (by decide) halted (by rw [ready]; decide) (by intro _ _ impossible; cases impossible)
  · have back : VirtualOS.SameImage ((VirtualOS.create kDefaultTimeSlice []).loadAll sources)
        ((VirtualOS.create quantum input).loadAll sources) :=
          ⟨image.physical.symm, image.nextId.symm, image.processes.symm⟩
    obtain ⟨process, found, -⟩ := VirtualOS.initial?_eq_some.mp start
    obtain ⟨other, here, -⟩ := back.sameView found
    exact ⟨other, here⟩

end Scheduled

variable [DecidableEq κ] [Fintype κ]

theorem run_loads (files : FileSystem) (os : VirtualOS) (sources : List Text) (rest : List (Action κ)) :
    run files ({ os := os } : Machine κ) (sources.map .load ++ rest) =
      run files ({ os := os.loadAll sources } : Machine κ) rest := by
  induction sources generalizing os with
  | nil => rfl
  | cons source others ih => exact ih (os.loadProgramFromSource source).2

/-- The state of a process at the end, as far as the process itself can tell:
general registers, flags, PC and SP, the data and the stack segment. -/
structure SameOutcome (a b : ExecutionContext) : Prop where
  id : a.process.id = b.process.id
  registers : a.registers = b.registers
  layout : a.process.layout = b.process.layout
  data : ∀ k, a.process.layout.dataSegment.Contains k → a.physical.memory k = b.physical.memory k
  stack : ∀ k, a.process.layout.stackSegment.Contains k → a.physical.memory k = b.physical.memory k

theorem SameOutcome.of_view {a b : ExecutionContext} (same : SameView a b) (fitting : a.process.layout.Fitting) :
    SameOutcome a b := by
  have inRegion : ∀ segment ∈ a.process.layout.segments, ∀ k, segment.Contains k →
      a.physical.memory k = b.physical.memory k := by
    intro segment member k inside
    have within := fitting.segment_within_region member
    exact same.bytes k ⟨within.1.trans inside.1, Nat.lt_of_lt_of_le inside.2 within.2⟩
  exact ⟨same.id, same.registers, same.layout, inRegion _ (.tail _ (.head _)), inRegion _ (.tail _ (.tail _ (.head _)))⟩

theorem SameOutcome.symm {a b : ExecutionContext} (same : SameOutcome a b) : SameOutcome b a :=
  ⟨same.id.symm, same.registers.symm, same.layout.symm, fun k inside =>
    (same.data k (by rw [same.layout]; exact inside)).symm,
    fun k inside => (same.stack k (by rw [same.layout]; exact inside)).symm⟩

theorem SameOutcome.trans {a b c : ExecutionContext} (first : SameOutcome a b) (last : SameOutcome b c) :
    SameOutcome a c :=
  ⟨first.id.trans last.id, first.registers.trans last.registers, first.layout.trans last.layout,
    fun k inside => (first.data k inside).trans (last.data k (by rw [← first.layout]; exact inside)),
    fun k inside => (first.stack k inside).trans (last.stack k (by rw [← first.layout]; exact inside))⟩

/-- The process has ended where it ends alone, and has printed what it prints alone. -/
def EndsAsAlone (sources : List Text) (machine : Machine κ) (p : ProcessRef) (process : ProcessControlBlock) : Prop :=
  ∃ initial n last final, VirtualOS.initial? sources p = some initial ∧ initial.alone n = some (last, final) ∧
    last.Ends ∧ SameOutcome (machine.os.context process) final ∧
    printed machine.os.output process.id = printed final.output process.id

theorem scheduled_of_run {quantum : Nat} {input : List Word} {files : FileSystem} {sources : List Text}
    {rest : List (Action κ)} {machine : Machine κ} (fits : ∀ source ∈ sources, VirtualOS.SourceFits source)
    (contained : ∀ p initial, VirtualOS.initial? sources p = some initial → initial.SelfContained)
    (schedules : ∀ action ∈ rest, action.Schedules)
    (ran : run files (boot quantum input) (sources.map .load ++ rest) = some machine)
    (lives : machine.terminated = false) : machine.Scheduled sources := by
  have start : run files ({ os := (VirtualOS.create quantum input).loadAll sources } : Machine κ) rest = some machine :=
    (run_loads files (VirtualOS.create quantum input) sources rest).symm.trans ran
  have kept : ∀ (reached : Machine κ) (action : Action κ) (after : Machine κ),
      (reached.terminated = false → reached.Scheduled sources) → action.Schedules →
      reached.step files action = some after → after.terminated = false → after.Scheduled sources := by
    intro reached action after scheduled isSchedule taken alive
    cases before : reached.terminated with
    | false => exact (scheduled before).step contained isSchedule taken alive
    | true =>
      unfold Machine.step at taken
      rw [if_pos before] at taken
      cases taken
  have guarded : ∀ (actions : List (Action κ)) (reached : Machine κ), (∀ action ∈ actions, action.Schedules) →
      Guarded (Machine.step files) (fun _ action => action.Schedules) reached actions := by
    intro actions
    induction actions with
    | nil => exact fun _ _ => trivial
    | cons action others ih =>
      intro reached all
      exact ⟨all action (.head _), fun next _ => ih next (fun other member => all other (.tail _ member))⟩
  exact run_invariant kept (fun _ => Scheduled.loaded fits) (guarded rest _ schedules) start lives

omit [DecidableEq κ] [Fintype κ] in
theorem Scheduled.endsAsAlone {sources : List Text} {machine : Machine κ} {p : ProcessRef}
    {process : ProcessControlBlock}
    (scheduled : machine.Scheduled sources) (found : machine.process? p = some process)
    (halted : process.state = .Halted) : machine.EndsAsAlone sources p process := by
  obtain ⟨initial, n, last, reached, start, ran, same, print, stage⟩ := scheduled.follows p process found
  refine ⟨initial, n, last, reached, start, ran, ?_, .of_view same (scheduled.separate.fitting found), print⟩
  cases stage with
  | going _ _ notHalted => exact absurd halted notHalted
  | ending ends => exact ends
  | ended ends => exact ends

/-- However many cores take turns on the programs, with whatever quantum and in
whatever order, each process ends with the same registers, data and stack and
has printed the same as in any other complete run, and as it does alone. -/
theorem schedule_independence {κ κ' : Type} [DecidableEq κ] [Fintype κ] [DecidableEq κ'] [Fintype κ']
    {files : FileSystem} {sources : List Text} {quantum quantum' : Nat} {input input' : List Word}
    {rest : List (Action κ)} {rest' : List (Action κ')} {machine : Machine κ} {machine' : Machine κ'}
    (fits : ∀ source ∈ sources, VirtualOS.SourceFits source)
    (contained : ∀ p initial, VirtualOS.initial? sources p = some initial → initial.SelfContained)
    (schedules : ∀ action ∈ rest, action.Schedules) (schedules' : ∀ action ∈ rest', action.Schedules)
    (ran : run files (boot quantum input) (sources.map .load ++ rest) = some machine)
    (ran' : run files (boot quantum' input') (sources.map .load ++ rest') = some machine')
    (lives : machine.terminated = false) (lives' : machine'.terminated = false)
    (halted : machine.os.processTable.allHalted = true) (halted' : machine'.os.processTable.allHalted = true) :
    ∀ p process, machine.process? p = some process →
      machine.EndsAsAlone sources p process ∧ ∃ process', machine'.process? p = some process' ∧
        machine'.EndsAsAlone sources p process' ∧
        SameOutcome (machine.os.context process) (machine'.os.context process') ∧
        printed machine.os.output process.id = printed machine'.os.output process'.id := by
  intro p process found
  have first := scheduled_of_run fits contained schedules ran lives
  have second := scheduled_of_run fits contained schedules' ran' lives'
  have isHalted : ∀ {table : ProcessTable} {p : ProcessRef} {process : ProcessControlBlock}, table.allHalted = true →
    table.processes[p]? = some process →
      process.state = .Halted := by
    intro table p process all here
    simpa using List.all_eq_true.mp all process (List.mem_of_getElem? here)
  have ended := first.endsAsAlone found (isHalted halted found)
  refine ⟨ended, ?_⟩
  obtain ⟨initial, n, last, final, start, alone, ends, outcome, print⟩ := ended
  obtain ⟨process', found'⟩ := second.complete p initial start
  have ended' := second.endsAsAlone found' (isHalted halted' found')
  refine ⟨process', found', ended', ?_⟩
  obtain ⟨initial', n', last', final', start', alone', ends', outcome', print'⟩ := ended'
  obtain rfl := Option.some.inj (start.symm.trans start')
  obtain ⟨rfl, rfl⟩ := alone_unique alone ends alone' ends'
  have both := outcome.trans outcome'.symm
  have id : process.id = process'.id := both.id
  exact ⟨both, by rw [print, print', id]⟩

/-- A program that counts and prints, and one that halts at once. -/
def countAndHalt : List Text := ["DATA:\nWORD x 7\nCODE:\ninc r1\ncall print, [x]\nhalt\n".toList, haltSource]

theorem countAndHalt_contained (p : ProcessRef) (initial : ExecutionContext)
    (start : VirtualOS.initial? countAndHalt p = some initial) : initial.SelfContained := by
  have checked : ∀ process ∈ (VirtualOS.reference countAndHalt).processTable.processes,
      ∃ n < 4, (∃ reached ∈ ((VirtualOS.reference countAndHalt).context process).alone n,
          reached.1.Ends) ∧
        ∀ m < n, ∀ reached ∈ ((VirtualOS.reference countAndHalt).context process).alone m,
          reached.2.NextContained := by decide +kernel
  obtain ⟨process, found, rfl⟩ := VirtualOS.initial?_eq_some.mp start
  obtain ⟨n, -, ends, each⟩ := checked process (List.mem_of_getElem? found)
  exact .of_ends ends each

/-- One core in turn, instruction by instruction. -/
def oneCore : List (Action (Fin 1)) := .start :: List.replicate 15 (.core onlyCore)

/-- Two cores at once. -/
def twoCores : List (Action (Fin 2)) :=
  .start :: (List.replicate 4 [.core secondCore, .core firstCore]).flatten ++ List.replicate 3 (.core secondCore)

theorem schedule_independence_countAndHalt :
    ∃ (machine : Machine (Fin 1)) (machine' : Machine (Fin 2)),
      run oneFile (boot 1 []) (countAndHalt.map .load ++ oneCore) = some machine ∧
      run oneFile (boot 100 []) (countAndHalt.map .load ++ twoCores) = some machine' ∧
      ∀ p process, machine.process? p = some process →
        machine.EndsAsAlone countAndHalt p process ∧ ∃ process', machine'.process? p = some process' ∧
          machine'.EndsAsAlone countAndHalt p process' ∧
          SameOutcome (machine.os.context process) (machine'.os.context process') ∧
          printed machine.os.output process.id = printed machine'.os.output process'.id := by
  have fits : ∀ source ∈ countAndHalt, VirtualOS.SourceFits source := by decide +kernel
  have one : (run oneFile (boot 1 []) (countAndHalt.map .load ++ oneCore)).map (fun machine : Machine (Fin 1) =>
      (machine.terminated, machine.os.processTable.allHalted)) = some (false, true) := by decide +kernel
  have two : (run oneFile (boot 100 []) (countAndHalt.map .load ++ twoCores)).map (fun machine : Machine (Fin 2) =>
      (machine.terminated, machine.os.processTable.allHalted)) = some (false, true) := by decide +kernel
  obtain ⟨machine, ran, ended⟩ := Option.map_eq_some_iff.mp one
  obtain ⟨machine', ran', ended'⟩ := Option.map_eq_some_iff.mp two
  obtain ⟨lives, halted⟩ := Prod.mk.inj ended
  obtain ⟨lives', halted'⟩ := Prod.mk.inj ended'
  exact ⟨machine, machine', ran, ran', schedule_independence fits countAndHalt_contained (by decide) (by decide)
    ran ran' lives lives' halted halted'⟩

end Machine

end VirtualMachine
