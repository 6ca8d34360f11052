import VirtualMachine.NoStranding
import VirtualMachine.Os.StepCalls

namespace VirtualMachine

open TransitionSystem

/-- An instruction that a call of `step` may begin: it is not one that ends the
process without halting it, and what it loads fits. -/
def ExecutionContext.Steppable (files : FileSystem) (ctx : ExecutionContext) : Prop :=
  ¬ ctx.NextStops ∧ ctx.LoadFits files ∧ ctx.LoadPlaced

instance (files : FileSystem) (ctx : ExecutionContext) : Decidable (ctx.Steppable files) :=
  inferInstanceAs (Decidable (_ ∧ _ ∧ _))

/-- A core may begin an instruction if what it loads fits, and it may publish a
process that is still ready. -/
def CoreState.KeepsHalted (files : FileSystem) (os : VirtualOS) : CoreState → Prop
  | .holding p => ∀ process ∈ os.process? p, process.context.halted = false ∧ process.state ≠ .Halted →
      (os.context process).LoadFits files
  | .loading _ child .emplaced => ∃ process ∈ os.process? child, process.state = .Ready
  | _ => True

instance (files : FileSystem) (os : VirtualOS) : (state : CoreState) → Decidable (state.KeepsHalted files os)
  | .holding p => inferInstanceAs (Decidable (∀ process ∈ os.process? p, _ → _))
  | .loading _ child .emplaced => inferInstanceAs (Decidable (∃ process ∈ os.process? child, _))
  | .loading _ _ .ready | .seeking | .idle | .executed _ _ | .releasing _ _ | .notifying | .exited | .terminated =>
    isTrue trivial

namespace Machine

variable {κ : Type}

/-- The action leaves halted processes alone: what it loads fits, a loader does
not come late with its write of `Ready`, and `step` is called on a process that
is not halted and executes neither `HALT` nor a failing instruction. -/
def KeepsHalted (files : FileSystem) (machine : Machine κ) : Action κ → Prop
  | .load source => VirtualOS.SourceFits source
  | .step id steps => steps = 0 ∨ ∀ p ∈ machine.os.processTable.find id,
      machine.stateOf p ≠ some .Halted ∧
        VirtualOS.eachInstruction (fun ctx => ctx.Steppable files) files id p steps machine.os = true
  | .core c => (machine.cores c).KeepsHalted files machine.os
  | _ => True

instance (files : FileSystem) (machine : Machine κ) : (action : Action κ) → Decidable (machine.KeepsHalted files action)
  | .load source => inferInstanceAs (Decidable (VirtualOS.SourceFits source))
  | .step _ _ => inferInstanceAs (Decidable (_ ∨ ∀ p ∈ _, _ ∧ _))
  | .core c => inferInstanceAs (Decidable ((machine.cores c).KeepsHalted files machine.os))
  | .start | .stop | .join => isTrue trivial

/-- The action is the end of a step in which process `p` has executed `HALT` or
the exit system call, or has returned an error. -/
def Ends (files : FileSystem) (machine : Machine κ) (p : ProcessRef) : Action κ → Prop
  | .core c => ∃ result, machine.cores c = .executed p result ∧ result.Ends
  | .step id steps => machine.os.processTable.find id = some p ∧
      ∃ result, (machine.os.step files id steps).1 = .ok result ∧ result.Ends
  | _ => False

/-- The action executes instructions of process `p`. -/
def Executes (machine : Machine κ) (p : ProcessRef) : Action κ → Prop
  | .core c => machine.cores c = .holding p ∧ machine.stopRequested = false ∧
      ∃ process, machine.process? p = some process ∧ process.context.halted = false ∧ process.state ≠ .Halted
  | .step id steps => steps ≠ 0 ∧ machine.os.processTable.find id = some p
  | _ => False

/-- Process `p` is halted, and no core will touch it any more. -/
structure Finished (machine : Machine κ) (p : ProcessRef) (process : ProcessControlBlock) : Prop where
  found : machine.process? p = some process
  halted : process.state = .Halted
  released : ∀ c, machine.Holds c p → ∃ preempt, machine.cores c = .releasing p preempt

/-- The invariant of the runs below. -/
structure Sound (machine : Machine κ) : Prop extends Exclusive machine where
  separate : machine.os.Separate

namespace Sound

variable {files : FileSystem} {machine next : Machine κ} {action : Action κ}

theorem boot (quantum : Nat) (input : List Word) : (Machine.boot quantum input : Machine κ).Sound :=
  ⟨.boot quantum input, .create quantum input⟩

theorem publishesUnheld (sound : machine.Sound) (keeps : machine.KeepsHalted files action) :
    machine.PublishesUnheld action := by
  intro child published d holds
  cases action with
  | core c =>
    cases state : machine.cores c with
    | loading p loaded stage =>
      cases stage with
      | emplaced =>
        simp only [published?, state, Option.mem_def, Option.some.injEq] at published
        subst published
        rw [KeepsHalted, state] at keeps
        obtain ⟨process, found, ready⟩ := keeps
        obtain ⟨same, here, notReady⟩ := (sound.consistent d).held holds
        obtain rfl := Option.some.inj (found.symm.trans here)
        exact notReady ready
      | ready => simp [published?, state] at published
    | _ => simp [published?, state] at published
  | _ => simp [published?] at published

/-- What a call of `step` touches. -/
theorem step_apart (sound : machine.Sound) {id : ProcessId} {steps : Nat} {q : ProcessRef}
    (keeps : machine.KeepsHalted files (.step id steps)) (known : machine.os.processTable.find id = some q) :
    Apart q machine.os (machine.os.step files id steps).2 := by
  rcases keeps with rfl | each
  · exact .refl q sound.separate
  · exact VirtualOS.stepLoop_apart .Continue sound.separate known
      (fun ctx good => (of_decide_eq_true good).2.1) (each q known).2

section Core

variable {c : κ}

theorem core_fits (keeps : machine.KeepsHalted files (.core c)) :
    ∀ p process, machine.cores c = .holding p → machine.os.process? p = some process →
      process.context.halted = false ∧ process.state ≠ .Halted → (machine.os.context process).LoadFits files := by
  intro p process holding found
  have keeps : (machine.cores c).KeepsHalted files machine.os := keeps
  rw [holding] at keeps
  exact keeps process found

theorem core_ready (keeps : machine.KeepsHalted files (.core c)) :
    ∀ p child, machine.cores c = .loading p child .emplaced →
      ∃ process, machine.os.process? child = some process ∧ process.state = .Ready := by
  intro p child loading
  have keeps : (machine.cores c).KeepsHalted files machine.os := keeps
  rw [loading] at keeps
  exact keeps

end Core

variable [DecidableEq κ] [Fintype κ]

theorem step (sound : machine.Sound) (keeps : machine.KeepsHalted files action)
    (taken : machine.step files action = some next) : next.Sound := by
  refine ⟨sound.toExclusive.step (sound.publishesUnheld keeps) taken, ?_⟩
  cases step_move taken with
  | load source idle => exact (Apart.of_loadProgramFromSource 0 sound.separate keeps).separate
  | step id steps idle =>
    cases known : machine.os.processTable.find id with
    | none =>
      show (machine.os.step files id steps).2.Separate
      rw [VirtualOS.step, VirtualOS.stepLoop_of_find_none steps .Continue known]
      exact sound.separate
    | some q => exact (sound.step_apart keeps known).separate
  | start idle => exact sound.separate
  | stop waiting halted => exact sound.separate
  | join stopping exited => exact sound.separate
  | @core c state os move =>
    obtain ⟨p, apart⟩ := move.exists_apart sound.separate (core_fits keeps) (core_ready keeps)
    exact apart.separate

end Sound

namespace Finished

variable {files : FileSystem} {machine next : Machine κ} {action : Action κ} {p : ProcessRef}
  {process : ProcessControlBlock}

theorem not_executes (finished : machine.Finished p process) (keeps : machine.KeepsHalted files action) :
    ¬ machine.Executes p action := by
  have halted : machine.stateOf p = some .Halted := by
    rw [stateOf, finished.found, Option.map_some, finished.halted]
  cases action with
  | core c =>
    rintro ⟨holding, -, -⟩
    obtain ⟨preempt, releasing⟩ := finished.released c (by rw [Holds, holding]; rfl)
    rw [holding] at releasing
    cases releasing
  | step id steps =>
    rintro ⟨some, known⟩
    rcases keeps with none | each
    · exact some none
    · exact (each p known).1 halted
  | _ => exact fun impossible => impossible

/-- What happens to other processes while no core runs. -/
theorem of_idle (finished : machine.Finished p process) (sound : machine.Sound) {os : VirtualOS} {q : ProcessRef}
    (apart : Apart q machine.os os) (other : p ≠ q) :
    ({ machine with os := os } : Machine κ).Finished p process ∧ VirtualOS.SameProcess p machine.os os := by
  have old := VirtualOS.lt_length_of_process? finished.found
  exact ⟨⟨(apart.kept p other old).trans finished.found, finished.halted, finished.released⟩,
    apart.sameProcess sound.separate other old⟩

variable [DecidableEq κ] [Fintype κ]

omit [Fintype κ] in
/-- A core does not touch a process that has ended, except to let go of it. -/
theorem core (finished : machine.Finished p process) (sound : machine.Sound) {c : κ}
    (keeps : machine.KeepsHalted files (.core c)) {state : CoreState} {os : VirtualOS} (terminated : Bool)
    (move : CoreMove files machine.stopRequested machine.os (machine.cores c) state os) :
    ({ machine with
        os := os, cores := Function.update machine.cores c state, terminated := terminated } : Machine κ).Finished
        p process ∧ VirtualOS.SameProcess p machine.os os := by
  by_cases mine : (machine.cores c).held = some p
  · -- The core that has halted the process only has to let go of it.
    obtain ⟨preempt, releasing⟩ := finished.released c mine
    have found : machine.os.process? p = some process := finished.found
    rw [releasing] at move
    have others : ∀ d, d ≠ c → ¬ machine.Holds d p := fun d other holds => other (sound.distinct d c p holds mine)
    have dropped : state = .seeking ∧ os = machine.os.notifyProcessReady := by
      cases move with
      | leave stop top => simp at top
      | drop => exact ⟨rfl, rfl⟩
      | preempt here running scheduler =>
        obtain rfl := Option.some.inj (found.symm.trans here)
        exact absurd (finished.halted.symm.trans running) (by decide)
      | pass here ready =>
        obtain rfl := Option.some.inj (found.symm.trans here)
        exact absurd (finished.halted.symm.trans ready) (by decide)
      | giveBack here alive =>
        obtain rfl := Option.some.inj (found.symm.trans here)
        exact absurd finished.halted alive
    obtain ⟨rfl, rfl⟩ := dropped
    refine ⟨⟨finished.found, finished.halted, fun d holds => ?_⟩, .refl p _⟩
    by_cases same : d = c
    · subst same
      rw [holds_update_same] at holds
      cases holds
    · rw [holds_update_other same] at holds
      exact absurd holds (others d same)
  · have released : state.held ≠ some p := by
      intro held
      rcases move.held_cases held with before | ⟨same, here, ready⟩
      · exact mine before
      · obtain rfl := Option.some.inj ((show machine.os.process? p = some process from finished.found).symm.trans here)
        exact absurd (finished.halted.symm.trans ready) (by decide)
    obtain ⟨q, other, apart⟩ :=
      move.apart_other sound.separate mine released (Sound.core_fits keeps) (Sound.core_ready keeps)
    have old := VirtualOS.lt_length_of_process? finished.found
    refine ⟨⟨(apart.kept p other old).trans finished.found, finished.halted, fun d holds => ?_⟩,
      apart.sameProcess sound.separate other old⟩
    by_cases same : d = c
    · subst same
      rw [holds_update_same] at holds
      exact absurd holds released
    · rw [holds_update_other same] at holds
      obtain ⟨preempt, releasing⟩ := finished.released d holds
      exact ⟨preempt, by simpa [Function.update_of_ne same] using releasing⟩

/-- Nothing touches a process that has ended. -/
theorem step (finished : machine.Finished p process) (sound : machine.Sound)
    (keeps : machine.KeepsHalted files action) (taken : machine.step files action = some next) :
    next.Finished p process ∧ VirtualOS.SameProcess p machine.os next.os := by
  have halted : machine.stateOf p = some .Halted := by
    rw [stateOf, finished.found, Option.map_some, finished.halted]
  cases step_move taken with
  | load source idle =>
    exact finished.of_idle sound (.of_loadProgramFromSource (p + 1) sound.separate keeps)
      (Nat.ne_of_lt (Nat.lt_succ_self p))
  | step id steps idle =>
    cases known : machine.os.processTable.find id with
    | none =>
      rw [VirtualOS.step, VirtualOS.stepLoop_of_find_none steps .Continue known]
      exact ⟨finished, .refl p _⟩
    | some q =>
      have apart := sound.step_apart keeps known
      rcases keeps with rfl | each
      · exact ⟨finished, .refl p _⟩
      · exact finished.of_idle sound apart (fun same => (each q known).1 (same ▸ halted))
  | start idle =>
    exact ⟨⟨finished.found, finished.halted, by intro c holds; cases holds⟩, .refl p _⟩
  | stop waiting allHalted => exact ⟨⟨finished.found, finished.halted, finished.released⟩, .refl p _⟩
  | join stopping exited => exact ⟨⟨finished.found, finished.halted, finished.released⟩, .refl p _⟩
  | core c move => exact finished.core sound keeps _ move

/-- The end of a process. -/
theorem of_ends (sound : machine.Sound) (keeps : machine.KeepsHalted files action)
    (taken : machine.step files action = some next) (ends : machine.Ends files p action) :
    ∃ process, next.Finished p process := by
  cases step_move taken with
  | load | start | stop | join => exact ends.elim
  | step id steps idle =>
    obtain ⟨known, result, returned, isEnd⟩ := ends
    have continues : ¬ ExecutionResult.Continue.Ends := by decide
    rcases keeps with rfl | each
    · exact absurd (Except.ok.inj returned ▸ isEnd) continues
    · obtain ⟨current, found, halted⟩ := VirtualOS.stepLoop_halted (fun ctx good => (of_decide_eq_true good).1)
        (each p known).2 known continues isEnd (Prod.ext returned rfl)
      refine ⟨current, found, halted, fun c holds => ?_⟩
      rw [Holds, sound.idle idle c] at holds
      cases holds
  | @core c state os move =>
    obtain ⟨result, executed, isEnd⟩ := ends
    have alone : ∀ d, d ≠ c → ¬ machine.Holds d p := fun d other holds =>
      other (sound.distinct d c p holds (by rw [Holds, executed]; rfl))
    rw [executed] at move
    have ended : state = .releasing p false ∧ ∃ process, os.process? p = some process ∧ process.state = .Halted := by
      cases move with
      | leave stop top => simp at top
      | halt found ended => exact ⟨rfl, _, (machine.os.process?_setState_same _).trans (by rw [found]; rfl), rfl⟩
      | fail found alive => exact ⟨rfl, _, (machine.os.process?_modifyProcess_same _).trans (by rw [found]; rfl), rfl⟩
      | yield found alive continues | expire found alive continues | keep found alive continues =>
        exact absurd isEnd (not_or.mpr continues)
    obtain ⟨rfl, process, found, halted⟩ := ended
    refine ⟨process, found, halted, fun d holds => ?_⟩
    by_cases same : d = c
    · subst same
      exact ⟨false, by simp⟩
    · rw [holds_update_other same] at holds
      exact absurd holds (alone d same)

theorem run {actions : List (Action κ)} (finished : machine.Finished p process) (sound : machine.Sound)
    (guarded : Guarded (Machine.step files) (KeepsHalted files) machine actions)
    (ran : Machine.run files machine actions = some next) :
    next.Finished p process ∧ next.Sound ∧ VirtualOS.SameProcess p machine.os next.os := by
  have kept : ∀ (reached : Machine κ) (action : Action κ) (after : Machine κ),
      reached.Finished p process ∧ reached.Sound ∧ VirtualOS.SameProcess p machine.os reached.os →
      reached.KeepsHalted files action → reached.step files action = some after →
      after.Finished p process ∧ after.Sound ∧ VirtualOS.SameProcess p machine.os after.os := by
    rintro reached action after ⟨finished, sound, same⟩ keeps taken
    obtain ⟨stays, unchanged⟩ := finished.step sound keeps taken
    exact ⟨stays, sound.step keeps taken, same.trans unchanged⟩
  exact run_invariant kept ⟨finished, sound, .refl p _⟩ guarded ran

end Finished

variable [DecidableEq κ] [Fintype κ]

/-- Halting is final along these actions: from the end of the step in which a
process ends, its state is `Halted`, none of its instructions is executed, and
its control block and its memory stay as they are; and two calls of `step` in a
row leave a process as one call with all the steps does. -/
structure HaltingFinal (files : FileSystem) (start : Machine κ) (actions : List (Action κ)) : Prop where
  halted : ∀ before action after machine next p, actions = before ++ action :: after →
    run files start before = some machine → machine.step files action = some next → machine.Ends files p action →
    next.stateOf p = some .Halted
  final : ∀ before action middle after machine next later p, actions = before ++ action :: (middle ++ after) →
    run files start before = some machine → machine.step files action = some next → machine.Ends files p action →
    run files next middle = some later →
    VirtualOS.SameProcess p next.os later.os ∧ ∀ following ∈ after.head?, ¬ later.Executes p following
  split : ∀ before id m n after machine next, actions = before ++ .step id m :: .step id n :: after →
    run files start before = some machine → machine.step files (.step id m) = some next →
    ∀ p ∈ machine.os.processTable.find id,
      VirtualOS.SameProcess p (machine.os.step files id (m + n)).2 (next.os.step files id n).2

theorem sound_of_run {quantum : Nat} {input : List Word} {files : FileSystem} {actions : List (Action κ)}
    {machine : Machine κ} (guarded : Guarded (Machine.step files) (KeepsHalted files) (boot quantum input) actions)
    (ran : run files (boot quantum input) actions = some machine) : machine.Sound :=
  run_invariant (fun _ _ _ sound keeps taken => sound.step keeps taken) (Sound.boot quantum input) guarded ran

/-- Halting is final in every run whose actions leave halted processes alone:
programs that spill over their regions, loaders that come late and a `HALT` or a
failure under `step` are what can break it. -/
theorem halting_final {quantum : Nat} {input : List Word} {files : FileSystem} {actions : List (Action κ)}
    (guarded : Guarded (Machine.step files) (KeepsHalted files) (boot quantum input) actions) :
    HaltingFinal files (boot quantum input) actions where
  halted := by
    rintro before action after machine next p rfl ran taken ends
    obtain ⟨guardedBefore, rest⟩ := guarded_append_iff.mp guarded
    obtain ⟨process, finished⟩ := Finished.of_ends (sound_of_run guardedBefore ran) (rest machine ran).1 taken ends
    rw [stateOf, finished.found, Option.map_some, finished.halted]
  final := by
    rintro before action middle after machine next later p rfl ran taken ends reached
    obtain ⟨guardedBefore, rest⟩ := guarded_append_iff.mp guarded
    obtain ⟨keeps, onward⟩ := rest machine ran
    have sound := sound_of_run guardedBefore ran
    obtain ⟨process, finished⟩ := Finished.of_ends sound keeps taken ends
    obtain ⟨guardedMiddle, last⟩ := guarded_append_iff.mp (onward next taken)
    obtain ⟨stays, -, same⟩ := finished.run (sound.step keeps taken) guardedMiddle reached
    refine ⟨same, fun following first => ?_⟩
    obtain ⟨others, rfl⟩ := List.head?_eq_some_iff.mp first
    exact stays.not_executes (last later reached).1
  split := by
    rintro before id m n after machine next rfl ran taken p known
    obtain ⟨guardedBefore, rest⟩ := guarded_append_iff.mp guarded
    obtain ⟨keeps, onward⟩ := rest machine ran
    obtain ⟨keepsLater, -⟩ := onward next taken
    have sound := sound_of_run guardedBefore ran
    cases step_move taken with
    | step _ _ idle =>
      have apart := sound.step_apart keeps known
      have knownLater : (machine.os.step files id m).2.processTable.find id = some p :=
        ProcessTable.find_of_ids apart.ids known
      have alive : n = 0 ∨ ∀ process, (machine.os.step files id m).2.process? p = some process →
          process.state ≠ .Halted := by
        refine keepsLater.imp_right fun each process found halted => (each p knownLater).1 ?_
        show ((machine.os.step files id m).2.process? p).map _ = _
        rw [found, Option.map_some, halted]
      rcases keeps with rfl | each
      · rw [Nat.zero_add]
        exact .refl p _
      · exact VirtualOS.stepLoop_split (fun ctx good => of_decide_eq_true good) sound.separate known
          (each p known).2 alive

/-- Two programs are loaded; one is stepped to its exit, the other one is run
by the core until it halts. -/
def stepThenHalt : List (Action (Fin 1)) :=
  [.load exitSource, .load haltSource, .step 1 1, .step 1 1, .start, .core onlyCore, .core onlyCore, .core onlyCore,
    .core onlyCore]

theorem halting_final_stepThenHalt :
    HaltingFinal oneFile (boot 100 [] : Machine (Fin 1)) stepThenHalt ∧
      (run oneFile (boot 100 [] : Machine (Fin 1)) stepThenHalt).map
        (fun machine : Machine (Fin 1) => (machine.stateOf 0, machine.stateOf 1)) =
          some (some .Halted, some .Halted) := by
  have guarded : Guarded (Machine.step oneFile) (KeepsHalted oneFile) (boot 100 [] : Machine (Fin 1)) stepThenHalt := by
    decide +kernel
  exact ⟨halting_final guarded, by decide +kernel⟩

/-- A `HALT` that is executed by `step` leaves its process running. -/
theorem halting_final_fails_for_steppedHalt :
    ¬ ∀ (quantum : Nat) (input : List Word) (files : FileSystem) (actions : List (Action (Fin 1))),
      HaltingFinal files (boot quantum input) actions := by
  intro final
  have stepped : (run oneFile (boot 100 []) [.load haltSource]).any (fun machine : Machine (Fin 1) =>
      (machine.step oneFile (.step 1 1)).any (fun next => next.stateOf 0 == some .Running) &&
        machine.os.processTable.find 1 == some 0 && (machine.os.step oneFile 1 1).1.toOption == some .Halt) = true := by
    decide +kernel
  obtain ⟨machine, ran, checked⟩ := (Option.any_eq_true _ _).mp stepped
  simp only [Bool.and_eq_true, beq_iff_eq] at checked
  obtain ⟨⟨taken, known⟩, halt⟩ := checked
  obtain ⟨next, taken, running⟩ := (Option.any_eq_true _ _).mp taken
  have ended : (machine.os.step oneFile 1 1).1 = .ok .Halt := by
    revert halt
    rcases (machine.os.step oneFile 1 1).1 with e | result
    · exact fun impossible => nomatch impossible
    · exact fun same => congrArg Except.ok (Option.some.inj same)
  have halted := (final 100 [] oneFile [.load haltSource, .step 1 1]).halted [.load haltSource] (.step 1 1) [] machine
    next 0 rfl ran taken ⟨known, .Halt, ended, Or.inl rfl⟩
  rw [beq_iff_eq, halted] at running
  cases running

end Machine

end VirtualMachine
