import VirtualMachine.NoStranding
import VirtualMachine.Os.Metering

namespace VirtualMachine

open TransitionSystem

namespace CoreMove

variable {files : FileSystem} {stopRequested : Bool} {os after : VirtualOS} {state next : CoreState} {p : ProcessRef}

/-- How a core comes to hold a process. -/
theorem acquires (move : CoreMove files stopRequested os state next after) (held : next.held = some p)
    (free : state.held ≠ some p) :
    state = .seeking ∧ next = .holding p ∧ ∃ process, os.process? p = some process ∧ process.state = .Ready ∧
      after.process? p = some ((process.setState .Running).resetTimeSlice os.scheduler.quantum) := by
  cases move with
  | acquire scheduler found ready =>
    cases held
    exact ⟨rfl, rfl, _, found, ready, (os.process?_modifyProcess_same _).trans (by rw [found]; rfl)⟩
  | leave | starve | look | throw | loadFails | preempt | pass | giveBack | drop | announce => cases held
  | discard | finish | emplace | publish | finishLoad | halt | fail | yield | expire | keep => exact absurd held free

end CoreMove

namespace Machine

variable {κ : Type}

/-- A loader sets a process to ready only while it still is ready. -/
def PublishesReady (machine : Machine κ) (action : Action κ) : Prop :=
  ∀ child ∈ machine.published? action, machine.stateOf child = some .Ready

instance (machine : Machine κ) (action : Action κ) : Decidable (machine.PublishesReady action) :=
  inferInstanceAs (Decidable (∀ child ∈ machine.published? action, _ = _))

/-- The instruction that core `c` executes in an action, if it executes one. -/
def instruction? [DecidableEq κ] (machine : Machine κ) (c : κ) : Action κ → Option ExecutionContext
  | .core d => if d = c then (machine.cores c).instruction? machine.stopRequested machine.os else none
  | _ => none

/-- The instructions that core `c` executes along a list of actions. -/
def executed [DecidableEq κ] [Fintype κ] (files : FileSystem) (c : κ) (machine : Machine κ) :
    List (Action κ) → List ExecutionContext
  | [] => []
  | action :: rest =>
    (machine.step files action).elim [] (fun next =>
      (machine.instruction? c action).toList ++ executed files c next rest)

/-- A turn of process `p` on core `c`: the first of the actions is the
acquisition, the last one the release that follows it. -/
inductive Turn [DecidableEq κ] [Fintype κ] (files : FileSystem) (c : κ) (p : ProcessRef) (machine : Machine κ) :
    List (Action κ) → Prop
  | intro {middle acquired releasing released preempt} (free : ¬ machine.Holds c p)
      (acquires : machine.step files (.core c) = some acquired) (holds : acquired.Holds c p)
      (kept : Guarded (Machine.step files) (fun machine _ => machine.Holds c p) acquired middle)
      (ran : run files acquired middle = some releasing) (leaves : releasing.cores c = .releasing p preempt)
      (releases : releasing.step files (.core c) = some released) :
      Turn files c p machine (.core c :: (middle ++ [.core c]))

/-- A pause of process `p`: a core is about to release it, its slice used up or
after a yield, and `resumed` is the machine when a core has next acquired it. -/
inductive Pause [DecidableEq κ] [Fintype κ] (files : FileSystem) (p : ProcessRef) (machine resumed : Machine κ) :
    List (Action κ) → Prop
  | intro {c d between released} (leaves : machine.cores c = .releasing p true)
      (releases : machine.step files (.core c) = some released)
      (unheld : Guarded (Machine.step files) (fun machine _ => ∀ c, ¬ machine.Holds c p) released between)
      (ran : run files released between = some resumed) (holds : resumed.Holds d p) :
      Pause files p machine resumed (.core c :: between)

/-- Process `p` has the registers on both machines, PC, SP and flags included. -/
def SameRegisters (p : ProcessRef) (before after : Machine κ) : Prop :=
  ∃ process current, before.process? p = some process ∧ after.process? p = some current ∧
    current.context.registers = process.context.registers

/-- The invariant behind the account of time slices. -/
structure Metered (quantum : Nat) (machine : Machine κ) : Prop extends Exclusive machine where
  os : machine.os.Metered quantum
  turns : ∀ c, ∃ instructions, (machine.cores c).InTurn quantum machine.os instructions
  stopping : machine.phase = .stopping → ∀ p process, machine.process? p = some process → process.state = .Halted

namespace Metered

variable {quantum : Nat} {files : FileSystem} {machine next : Machine κ} {action : Action κ} {c : κ} {p : ProcessRef}

theorem boot (quantum : Nat) (input : List Word) : (Machine.boot quantum input : Machine κ).Metered quantum where
  toExclusive := .boot quantum input
  os := .create quantum input
  turns _ := ⟨[], trivial⟩
  stopping impossible := by
    cases impossible

/-- An interface call, made while no core runs. -/
theorem of_idle {os : VirtualOS} (metered : machine.Metered quantum) (idle : machine.phase = .idle)
    (after : os.Metered quantum) : ({ machine with os := os } : Machine κ).Metered quantum where
  toExclusive := metered.toExclusive.of_idle idle
  os := after
  turns c := by
    refine ⟨[], ?_⟩
    show (machine.cores c).InTurn _ _ _
    rw [metered.idle idle c]
    trivial
  stopping impossible := absurd (idle.symm.trans impossible) (by decide)

theorem published_ready (publishes : machine.PublishesReady (.core c)) {q child : ProcessRef}
    (loading : machine.cores c = .loading q child .emplaced) :
    ∃ process, machine.os.process? child = some process ∧ process.state = .Ready := by
  have ready := publishes child (by simp [published?, loading])
  obtain ⟨process, found, state⟩ := Option.map_eq_some_iff.mp ready
  exact ⟨process, found, state⟩

theorem publishesUnheld (metered : machine.Metered quantum) (publishes : machine.PublishesReady action) :
    machine.PublishesUnheld action := by
  intro child published d holds
  obtain ⟨process, found, ready⟩ := Option.map_eq_some_iff.mp (publishes child published)
  obtain ⟨same, here, notReady⟩ := (metered.consistent d).held holds
  have current : machine.os.process? child = some process := found
  obtain rfl := Option.some.inj (current.symm.trans here)
  exact notReady ready

/-- A loader does not publish the process that it runs itself. -/
theorem apart (metered : machine.Metered quantum) (publishes : machine.PublishesReady (.core c)) :
    ∀ q, machine.cores c ≠ .loading q q .emplaced := by
  intro q loading
  refine metered.publishesUnheld publishes q (by simp [published?, loading]) c ?_
  rw [Holds, loading]
  rfl

/-- The cores are inside a call of `run` and have not been told to stop while one of them holds a running process. -/
theorem waiting (metered : machine.Metered quantum) (holds : machine.Holds c p) {process : ProcessControlBlock}
    (found : machine.process? p = some process) (running : process.state = .Running) : machine.phase = .waiting := by
  cases phase : machine.phase with
  | idle =>
    rw [Holds, metered.idle phase c] at holds
    cases holds
  | waiting => rfl
  | stopping => exact absurd (running.symm.trans (metered.stopping phase p process found)) (by decide)

variable [DecidableEq κ] [Fintype κ]

/-- A core that holds a process goes on with its turn, and what another core
does has no part in it. -/
theorem inTurn_step (metered : machine.Metered quantum) (publishes : machine.PublishesReady action)
    (taken : machine.step files action = some next) (holds : machine.Holds c p) {instructions : List ExecutionContext}
    (inTurn : (machine.cores c).InTurn quantum machine.os instructions) :
    (next.cores c).InTurn quantum next.os (instructions ++ (machine.instruction? c action).toList) := by
  cases step_move taken with
  | core d move =>
    by_cases same : d = c
    · subst same
      have held : (machine.cores d).held ≠ none := by
        rw [show (machine.cores d).held = some p from holds]
        exact Option.some_ne_none p
      rw [Machine.instruction?, if_pos rfl]
      exact CoreLoop.step_inTurn (core_step taken) (metered.consistent d) inTurn held (metered.apart publishes)
    · have other : c ≠ d := Ne.symm same
      have kept := metered.kept_elsewhere (metered.publishesUnheld publishes) move c other p holds
      rw [Machine.instruction?, if_neg same, Option.toList_none, List.append_nil, cores_step_other taken other]
      refine inTurn.congr fun q held => ?_
      obtain rfl := Option.some.inj ((show (machine.cores c).held = some p from holds).symm.trans held)
      exact kept.1
  | load source idle | step id steps idle | start idle =>
    rw [Holds, metered.idle idle c] at holds
    cases holds
  | stop waiting halted =>
    have none : machine.instruction? c .stop = Option.none := rfl
    rw [none, Option.toList_none, List.append_nil]
    exact inTurn.congr (fun _ _ => rfl)
  | join stopping exited =>
    rw [Holds, exited c] at holds
    cases holds

/-- A core that acquires a process has its whole turn before it. -/
theorem inTurn_acquired (metered : machine.Metered quantum) (positive : 1 ≤ quantum)
    (taken : machine.step files (.core c) = some next) (free : ¬ machine.Holds c p) (holds : next.Holds c p) :
    machine.cores c = .seeking ∧ (next.cores c).InTurn quantum next.os [] := by
  obtain ⟨seeking, holding, process, found, ready, acquired⟩ := (core_move taken).acquires holds free
  refine ⟨seeking, ?_⟩
  have slice : ((process.setState .Running).resetTimeSlice machine.os.scheduler.quantum).context.timeSliceLeft =
    quantum := metered.os.scheduler
  rw [holding]
  refine ⟨_, acquired, metered.os.ready p process found ready, ?_, ?_⟩
  · rw [slice]
    exact positive
  · rw [slice]
    rfl

/-- A step of a core. -/
theorem core (metered : machine.Metered quantum) (positive : 1 ≤ quantum) (publishes : machine.PublishesReady (.core c))
    (taken : machine.step files (.core c) = some next) : next.Metered quantum := by
  have move := core_move taken
  obtain ⟨instructions, inTurn⟩ := metered.turns c
  refine ⟨metered.toExclusive.step (metered.publishesUnheld publishes) taken, ?_, fun d => ?_,
    fun stopping p process found => ?_⟩
  · exact metered.os.coreMove move (CoreLoop.step_quantum (core_step taken)) (metered.consistent c) inTurn
      (fun _ _ loading => published_ready publishes loading)
  · by_cases holding : ∃ p, machine.Holds d p
    · obtain ⟨p, holds⟩ := holding
      obtain ⟨before, inTurn⟩ := metered.turns d
      exact ⟨_, metered.inTurn_step publishes taken holds inTurn⟩
    · by_cases taking : ∃ p, next.Holds d p
      · obtain ⟨p, holds⟩ := taking
        by_cases same : d = c
        · subst same
          exact ⟨[], (metered.inTurn_acquired positive taken (fun before => holding ⟨p, before⟩) holds).2⟩
        · rw [Holds, cores_step_other taken same] at holds
          exact absurd ⟨p, holds⟩ holding
      · exact ⟨[], .of_free fun p holds => taking ⟨p, holds⟩⟩
  · have phase : next.phase = machine.phase := by
      cases step_move taken with
      | core c move => rfl
    rw [phase] at stopping
    exact move.stays_halted (metered.consistent c) (metered.stopping stopping) found

theorem step (metered : machine.Metered quantum) (positive : 1 ≤ quantum) (publishes : machine.PublishesReady action)
    (taken : machine.step files action = some next) : next.Metered quantum := by
  have exclusive := metered.toExclusive.step (metered.publishesUnheld publishes) taken
  cases step_move taken with
  | core c move => exact metered.core positive publishes taken
  | load source idle => exact metered.of_idle idle (metered.os.loadProgramFromSource source)
  | step id steps idle => exact metered.of_idle idle (metered.os.stepLoop files id steps .Continue)
  | start idle =>
    refine ⟨exclusive, metered.os.congr rfl rfl, fun c => ⟨[], trivial⟩, fun impossible => ?_⟩
    cases impossible
  | stop waiting halted =>
    refine ⟨exclusive, metered.os.congr rfl rfl, fun c => ?_, fun _ => ProcessTable.allHalted_iff.mp halted⟩
    obtain ⟨instructions, inTurn⟩ := metered.turns c
    exact ⟨instructions, inTurn.congr (fun _ _ => rfl)⟩
  | join stopping exited =>
    refine ⟨exclusive, metered.os, metered.turns, fun impossible => ?_⟩
    cases impossible

theorem of_run {actions : List (Action κ)} (metered : machine.Metered quantum) (positive : 1 ≤ quantum)
    (guarded : Guarded (Machine.step files) PublishesReady machine actions)
    (ran : run files machine actions = some next) : next.Metered quantum :=
  run_invariant (fun _ _ _ metered publishes taken => metered.step positive publishes taken) metered guarded ran

end Metered

section Turns

variable [DecidableEq κ] [Fintype κ] {quantum : Nat} {files : FileSystem} {machine next : Machine κ}
  {action : Action κ} {c : κ} {p : ProcessRef}

theorem executed_cons {rest : List (Action κ)} (taken : machine.step files action = some next) :
    executed files c machine (action :: rest) =
      (machine.instruction? c action).toList ++ executed files c next rest := by
  rw [executed, taken, Option.elim_some]

theorem executed_append {first rest : List (Action κ)} (ran : run files machine first = some next) :
    executed files c machine (first ++ rest) = executed files c machine first ++ executed files c next rest := by
  induction first generalizing machine with
  | nil =>
    cases ran
    rfl
  | cons action first ih =>
    obtain ⟨middle, taken, remaining⟩ := run_cons_iff.mp ran
    rw [List.cons_append, executed_cons taken, executed_cons taken, ih remaining, List.append_assoc]

/-- While a core holds a process, its turn counts all that it executes. -/
theorem Metered.inTurn_run {actions : List (Action κ)} (metered : machine.Metered quantum) (positive : 1 ≤ quantum)
    (guarded : Guarded (Machine.step files) PublishesReady machine actions)
    (kept : Guarded (Machine.step files) (fun machine _ => machine.Holds c p) machine actions)
    (ran : run files machine actions = some next) {instructions : List ExecutionContext}
    (inTurn : (machine.cores c).InTurn quantum machine.os instructions) :
    (next.cores c).InTurn quantum next.os (instructions ++ executed files c machine actions) := by
  induction actions generalizing machine instructions with
  | nil =>
    cases ran
    rw [executed, List.append_nil]
    exact inTurn
  | cons action rest ih =>
    obtain ⟨middle, taken, remaining⟩ := run_cons_iff.mp ran
    have stepped := metered.inTurn_step guarded.1 taken kept.1 inTurn
    rw [executed_cons taken, ← List.append_assoc]
    exact ih (metered.step positive guarded.1 taken) (guarded.2 middle taken) (kept.2 middle taken) remaining stepped

theorem Metered.turn {during : List (Action κ)} (metered : machine.Metered quantum) (positive : 1 ≤ quantum)
    (guarded : Guarded (Machine.step files) PublishesReady machine during) (turn : machine.Turn files c p during) :
    WithinQuantum quantum (executed files c machine during) := by
  cases turn with
  | @intro middle acquired releasing released preempt free acquires holds kept ran leaves releases =>
    obtain ⟨seeking, begins⟩ := metered.inTurn_acquired positive acquires free holds
    have later := guarded.2 acquired acquires
    have inTurn := (metered.step positive guarded.1 acquires).inTurn_run positive (guarded_append_iff.mp later).1 kept
      ran begins
    -- Neither the acquisition nor the release executes anything.
    have counted : executed files c machine (.core c :: (middle ++ [.core c])) = executed files c acquired middle := by
      have first : machine.instruction? c (.core c) = none := by
        rw [Machine.instruction?, if_pos rfl, seeking]
        rfl
      have last : releasing.instruction? c (.core c) = none := by
        rw [Machine.instruction?, if_pos rfl, leaves]
        rfl
      rw [executed_cons acquires, executed_append ran, executed_cons releases, first, last]
      simp [executed]
    rw [counted]
    rw [List.nil_append, leaves] at inTurn
    cases preempt with
    | true | false =>
      obtain ⟨process, found, within, state⟩ := inTurn
      exact within

/-- Between two turns the registers of a process stay, and it is ready unless
a core has taken it again. -/
structure Paused (process : ProcessControlBlock) (p : ProcessRef) (machine : Machine κ) : Prop where
  registers : ∃ current, machine.process? p = some current ∧ current.context.registers = process.context.registers
  free : (∀ c, ¬ machine.Holds c p) → machine.phase = .waiting ∧ machine.stateOf p = some .Ready

namespace Paused

variable {process : ProcessControlBlock}

/-- A core that releases a process for another turn leaves it ready, with its registers. -/
theorem of_release (metered : machine.Metered quantum) (leaves : machine.cores c = .releasing p true)
    (found : machine.process? p = some process) (taken : machine.step files (.core c) = some next) :
    next.Paused process p := by
  obtain ⟨instructions, inTurn⟩ := metered.turns c
  have holds : machine.Holds c p := by
    rw [Holds, leaves]
    rfl
  rw [leaves] at inTurn
  obtain ⟨same, here, -, running, -⟩ := inTurn
  obtain rfl := Option.some.inj ((show machine.os.process? p = some process from found).symm.trans here)
  have waiting := metered.waiting holds found running
  have stepped := core_step taken
  rw [leaves] at stepped
  simp only [CoreLoop.step, here, Option.map_some, CoreLoop.release_preempt here running, Option.some.injEq,
    Prod.mk.injEq] at stepped
  have after : next.process? p = some (process.setState .Ready) := by
    have set := machine.os.process?_setState_same (p := p) .Ready
    rw [here, Option.map_some] at set
    rw [process?, ← stepped.2]
    exact set
  have phase : next.phase = machine.phase := by
    cases step_move taken with
    | core c move => rfl
  refine ⟨⟨_, after, rfl⟩, fun _ => ⟨phase.trans waiting, ?_⟩⟩
  rw [stateOf, after]
  rfl

/-- What other cores and loaders do meanwhile leaves a paused process alone. -/
theorem step (paused : machine.Paused process p) (publishes : machine.PublishesReady action)
    (unheld : ∀ c, ¬ machine.Holds c p) (taken : machine.step files action = some next) : next.Paused process p := by
  obtain ⟨waiting, ready⟩ := paused.free unheld
  obtain ⟨current, found, registers⟩ := paused.registers
  have state : current.state = .Ready := by
    rw [stateOf, found] at ready
    exact Option.some.inj ready
  cases step_move taken with
  | load source idle | step id steps idle | start idle => exact absurd (waiting.symm.trans idle) (by decide)
  | stop _ halted =>
    have ended : current.state = .Halted := ProcessTable.allHalted_iff.mp halted p current found
    exact absurd (state.symm.trans ended) (by decide)
  | join stopping exited => exact absurd (waiting.symm.trans stopping) (by decide)
  | @core c state' os move =>
    by_cases taking : state'.held = some p
    · obtain ⟨-, -, same, here, -, acquired⟩ := move.acquires taking (unheld c)
      obtain rfl := Option.some.inj ((show machine.os.process? p = some current from found).symm.trans here)
      exact ⟨⟨_, acquired, registers⟩, fun free => absurd (holds_update_same.mpr taking) (free c)⟩
    · have kept : os.process? p = machine.os.process? p := by
        by_cases loading : ∃ q, machine.cores c = .loading q p .emplaced
        · obtain ⟨q, loading⟩ := loading
          rw [loading] at move
          cases move with
          | leave stop top => simp at top
          | publish => rw [VirtualOS.setState_eq_self found state]
        · exact move.process?_kept (VirtualOS.lt_length_of_process? found) (unheld c) taking
            (fun q same => loading ⟨q, same⟩)
      refine ⟨⟨current, kept.trans found, registers⟩, fun _ => ⟨waiting, ?_⟩⟩
      rw [stateOf, process?, kept]
      exact ready

end Paused

theorem Metered.pause {during : List (Action κ)} {resumed : Machine κ} (metered : machine.Metered quantum)
    (guarded : Guarded (Machine.step files) PublishesReady machine during)
    (pause : machine.Pause files p resumed during) : machine.SameRegisters p resumed := by
  cases pause with
  | @intro c d between released leaves releases unheld ran holds =>
    obtain ⟨instructions, inTurn⟩ := metered.turns c
    rw [leaves] at inTurn
    obtain ⟨process, found, -⟩ := inTurn
    have paused : released.Paused process p := .of_release metered leaves found releases
    have both := (guarded.2 released releases).and unheld
    have reached : resumed.Paused process p :=
      run_invariant (fun _ _ _ paused guard taken => paused.step guard.1 guard.2 taken) paused both ran
    obtain ⟨current, here, registers⟩ := reached.registers
    exact ⟨process, current, found, here, registers⟩

/-- The account of time slices in every run of any number of cores in which
loaders set a process to ready only while it still is: each turn of a process on
a core executes at least one and at most a quantum of its instructions, and
fewer only if the last one halted it, failed or was the yield system call; and a
process that is released for another turn is resumed with the registers it had. -/
theorem quantum_accounting {input : List Word} {before during : List (Action κ)} (positive : 1 ≤ quantum)
    (guarded : Guarded (Machine.step files) PublishesReady (boot quantum input) (before ++ during))
    (ran : run files (boot quantum input) before = some machine) :
    (∀ c p, machine.Turn files c p during → WithinQuantum quantum (executed files c machine during)) ∧
      ∀ p resumed, machine.Pause files p resumed during → machine.SameRegisters p resumed := by
  obtain ⟨first, later⟩ := guarded_append_iff.mp guarded
  have metered : machine.Metered quantum := (Metered.boot quantum input).of_run positive first ran
  exact ⟨fun c p turn => metered.turn positive (later machine ran) turn,
    fun p resumed pause => metered.pause (later machine ran) pause⟩

/-- A check for a turn, given what happens between the acquisition and the release. -/
def isTurn (files : FileSystem) (c : κ) (p : ProcessRef) (machine : Machine κ) (middle : List (Action κ)) : Bool :=
  decide (¬ machine.Holds c p) &&
    (machine.step files (.core c)).any (fun acquired =>
      decide (acquired.Holds c p ∧
          Guarded (Machine.step files) (fun machine _ => machine.Holds c p) acquired middle) &&
        (run files acquired middle).any (fun releasing =>
          decide (∃ preempt, releasing.cores c = .releasing p preempt) && (releasing.step files (.core c)).isSome))

theorem turn_of_isTurn {middle : List (Action κ)} (checked : machine.isTurn files c p middle = true) :
    machine.Turn files c p (.core c :: (middle ++ [.core c])) := by
  rw [isTurn, Bool.and_eq_true, decide_eq_true_eq] at checked
  obtain ⟨free, begins⟩ := checked
  obtain ⟨acquired, acquires, begins⟩ := (Option.any_eq_true _ _).mp begins
  rw [Bool.and_eq_true, decide_eq_true_eq] at begins
  obtain ⟨⟨holds, kept⟩, goesOn⟩ := begins
  obtain ⟨releasing, ran, ends⟩ := (Option.any_eq_true _ _).mp goesOn
  rw [Bool.and_eq_true, decide_eq_true_eq] at ends
  obtain ⟨⟨preempt, leaves⟩, releases⟩ := ends
  obtain ⟨released, releases⟩ := Option.isSome_iff_exists.mp releases
  exact .intro free acquires holds kept ran leaves releases

/-- The same for a pause between a release by core `c` and an acquisition by core `d`. -/
def isPause (files : FileSystem) (c d : κ) (p : ProcessRef) (machine : Machine κ) (between : List (Action κ)) : Bool :=
  decide (machine.cores c = .releasing p true) &&
    (machine.step files (.core c)).any (fun released =>
      decide (Guarded (Machine.step files) (fun machine _ => ∀ c, ¬ machine.Holds c p) released between) &&
        (run files released between).any (fun resumed => decide (resumed.Holds d p)))

theorem pause_of_isPause {d : κ} {between : List (Action κ)} (checked : machine.isPause files c d p between = true) :
    ∃ resumed, machine.Pause files p resumed (.core c :: between) := by
  rw [isPause, Bool.and_eq_true, decide_eq_true_eq] at checked
  obtain ⟨leaves, goesOn⟩ := checked
  obtain ⟨released, releases, goesOn⟩ := (Option.any_eq_true _ _).mp goesOn
  rw [Bool.and_eq_true, decide_eq_true_eq] at goesOn
  obtain ⟨unheld, ends⟩ := goesOn
  obtain ⟨resumed, ran, holds⟩ := (Option.any_eq_true _ _).mp ends
  exact ⟨resumed, .intro leaves releases unheld ran (of_decide_eq_true holds)⟩

end Turns

def countSource : Text := "CODE:\ninc r1\ninc r1\nhalt\n".toList

def startCounting : List (Action (Fin 1)) := [.load countSource, .start]

/-- With a quantum of two, the first turn comes to its end with the second increment. -/
def countTwice : List (Action (Fin 1)) := List.replicate 4 (.core onlyCore)

theorem quantum_accounting_countTwice :
    ∃ begun counted resumed : Machine (Fin 1), run oneFile (boot 2 []) startCounting = some begun ∧
      WithinQuantum 2 (executed oneFile onlyCore begun (.core onlyCore :: (countTwice ++ [.core onlyCore]))) ∧
      run oneFile (boot 2 []) (startCounting ++ .core onlyCore :: countTwice) = some counted ∧
      counted.Pause oneFile 0 resumed [.core onlyCore, .core onlyCore] ∧ counted.SameRegisters 0 resumed := by
  have first : (run oneFile (boot 2 []) startCounting).any (fun machine =>
      machine.isTurn oneFile onlyCore 0 countTwice) = true := by decide +kernel
  have second : (run oneFile (boot 2 []) (startCounting ++ .core onlyCore :: countTwice)).any (fun machine =>
      machine.isPause oneFile onlyCore onlyCore 0 [.core onlyCore]) = true := by decide +kernel
  obtain ⟨begun, ran, turn⟩ := (Option.any_eq_true _ _).mp first
  obtain ⟨counted, ranOn, pause⟩ := (Option.any_eq_true _ _).mp second
  obtain ⟨resumed, pause⟩ := pause_of_isPause pause
  have during : Guarded (Machine.step oneFile) PublishesReady (boot 2 [])
      (startCounting ++ .core onlyCore :: (countTwice ++ [.core onlyCore])) := by decide +kernel
  have afterwards : Guarded (Machine.step oneFile) PublishesReady (boot 2 [])
      ((startCounting ++ .core onlyCore :: countTwice) ++ [.core onlyCore, .core onlyCore]) := by decide +kernel
  exact ⟨begun, counted, resumed, ran,
    (quantum_accounting (by decide) during ran).1 onlyCore 0 (turn_of_isTurn turn), ranOn, pause,
    (quantum_accounting (by decide) afterwards ranOn).2 0 resumed pause⟩

/-- Core 0 loads a process that core 1 takes and halts at once. Only then does
core 0 set it to ready and announce it. -/
def lateRevival : List (Action (Fin 2)) :=
  [.load loaderSource, .load haltSource, .start, .core firstCore, .core secondCore, .core firstCore] ++
    List.replicate 7 (.core secondCore) ++ [.core firstCore, .core firstCore]

/-- The next turn of the revived process executes nothing. -/
theorem quantum_accounting_fails_for_lateRevival :
    ¬ ∀ (quantum : Nat) (input : List Word) (files : FileSystem) (before during : List (Action (Fin 2)))
      (machine : Machine (Fin 2)), 1 ≤ quantum → run files (boot quantum input) before = some machine →
        (∀ c p, machine.Turn files c p during → WithinQuantum quantum (executed files c machine during)) ∧
          ∀ p resumed, machine.Pause files p resumed during → machine.SameRegisters p resumed := by
  intro accounts
  have revived : (run oneFile (boot 100 []) lateRevival).any (fun machine =>
      machine.isTurn oneFile secondCore 2 [.core secondCore] &&
        (executed oneFile secondCore machine (.core secondCore ::
          ([.core secondCore] ++ [.core secondCore]))).isEmpty) =
      true := by decide +kernel
  obtain ⟨machine, ran, checked⟩ := (Option.any_eq_true _ _).mp revived
  rw [Bool.and_eq_true, List.isEmpty_iff] at checked
  obtain ⟨turn, nothing⟩ := checked
  have within := (accounts 100 [] oneFile lateRevival _ machine (by decide) ran).1 secondCore 2 (turn_of_isTurn turn)
  have some := within.atLeast
  rw [nothing] at some
  exact absurd some (by decide)

end Machine

end VirtualMachine
