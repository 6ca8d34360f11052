import VirtualMachine.Os.Remaining
import VirtualMachine.NoDeadlock
import VirtualMachine.ProgramExecution

namespace VirtualMachine

open TransitionSystem ExecutionContext Source

/-- A caller of `step` that looks at what it returns: a process whose end it has
been told is not stepped again, and nothing is stepped after an exception. -/
structure StepSession where
  os : VirtualOS
  ended : ProcessId → Bool := fun _ => false

/-- One call, with the ids of the processes that the caller has been told have
ended. -/
def StepSession.step (files : FileSystem) (session : StepSession) : ProcessId × Nat → Option StepSession
  | (id, steps) =>
    if session.ended id then none
    else
      match session.os.step files id steps with
      | (.error _, _) => none
      | (.ok result, os) => some { os := os, ended := Function.update session.ended id (decide result.Ends) }

namespace VirtualOS

/-- Each process is where it gets alone after this many instructions, the last of
which had this result. -/
structure Stepped (sources : List Text) (count : ProcessRef → Nat) (last : ProcessRef → ExecutionResult)
    (os : VirtualOS) :
    Prop where
  separate : os.Separate
  numbered : os.Numbered
  stands : ∀ p process, os.process? p = some process → ∃ initial reached, initial? sources p = some initial ∧
    initial.alone (count p) = some (last p, reached) ∧ SameView (os.context process) reached ∧
    printed os.output process.id = printed reached.output process.id
  complete : ∀ p initial, initial? sources p = some initial → ∃ process, os.process? p = some process

/-- The process that is found by an id has that id. -/
theorem id_of_find {os : VirtualOS} {id : ProcessId} {p : ProcessRef} {process : ProcessControlBlock}
    (known : os.processTable.find id = some p) (found : os.process? p = some process) : process.id = id := by
  obtain ⟨bound, matched, -⟩ := List.findIdx?_eq_some_iff_getElem.mp known
  have here : os.processTable.processes[p]? = some process := found
  rw [List.getElem?_eq_getElem bound] at here
  cases here
  exact beq_iff_eq.mp matched

/-- Loads number their processes one by one. -/
theorem Numbered.loadAll {os : VirtualOS} (numbered : os.Numbered) (sources : List Text) :
    (os.loadAll sources).Numbered := by
  induction sources generalizing os with
  | nil => exact numbered
  | cons source rest ih => exact ih (numbered.loadProgramFromSource source)

namespace Stepped

variable {sources : List Text} {count : ProcessRef → Nat} {last : ProcessRef → ExecutionResult} {os after : VirtualOS}
  {files : FileSystem}
  {id : ProcessId} {p : ProcessRef} {process : ProcessControlBlock} {result : ExecutionResult}

/-- After the loads each process is where it starts. -/
theorem loaded {quantum : Nat} {input : List Word} (fits : ∀ source ∈ sources, SourceFits source) :
    ((create quantum input).loadAll sources).Stepped sources (fun _ => 0) (fun _ => .Continue) where
  separate := ((Fresh.create quantum input).loadAll fits).separate
  numbered := (Numbered.create quantum input).loadAll sources
  stands := by
    intro p process found
    obtain ⟨initial, start, view⟩ := initial?_view found
    obtain ⟨_, _, rfl⟩ := initial?_eq_some.mp start
    refine ⟨_, _, start, rfl, view, ?_⟩
    show printed ((create quantum input).loadAll sources).output process.id =
      printed (reference sources).output process.id
    rw [((Fresh.create quantum input).loadAll fits).output, reference,
      ((Fresh.create kDefaultTimeSlice []).loadAll fits).output]
  complete := by
    intro p initial start
    have booted : SameImage (create kDefaultTimeSlice []) (create quantum input) := ⟨rfl, rfl, rfl⟩
    have image : SameImage (reference sources) ((create quantum input).loadAll sources) := booted.loadAll sources
    obtain ⟨process, found, -⟩ := initial?_eq_some.mp start
    obtain ⟨other, here, -⟩ := image.sameView found
    exact ⟨other, here⟩

/-- What one process does and prints leaves every other where it stands. -/
theorem stands_other {q : ProcessRef} {other : ProcessControlBlock} {words : List Word}
    (stepped : os.Stepped sources count last) (apart : Apart p os after) (found : os.process? p = some process)
    (apartFrom : q ≠ p) (here : os.process? q = some other)
    (output : after.output = os.output ++ words.map (fun value => (process.id, value))) :
    ∃ initial reached, initial? sources q = some initial ∧ initial.alone (count q) = some (last q, reached) ∧
      SameView (after.context other) reached ∧ printed after.output other.id = printed reached.output other.id := by
  have sizes := (Allocated.size apart.separate).trans (Allocated.size stepped.separate).symm
  obtain ⟨initial, reached, start, alone, view, print⟩ := stepped.stands q other here
  refine ⟨initial, reached, start, alone, ⟨view.id, view.layout, view.registers, sizes.trans view.size, ?_⟩, ?_⟩
  · intro k inside
    exact (apart.bytes q other apartFrom here k inside).trans (view.bytes k inside)
  · have differ : process.id ≠ other.id := by
      rw [stepped.numbered.ids p process found, stepped.numbered.ids q other here]
      exact fun same => apartFrom (Nat.succ.inj same).symm
    rw [output, printed_append, if_neg differ, List.append_nil, print]

/-- One instruction of a process that goes on. -/
theorem stepProcess (stepped : os.Stepped sources count last)
    (contained : ∀ p initial, initial? sources p = some initial → initial.SelfContained)
    (known : os.processTable.find id = some p) (alive : ¬ (last p).Ends)
    (ran : os.stepProcess files id = (.ok result, after)) :
    after.Stepped sources (Function.update count p (count p + 1)) (Function.update last p result) := by
  obtain ⟨process, found⟩ := process?_of_find known
  obtain ⟨initial, reached, start, alone, same, print⟩ := stepped.stands p process found
  have running : (os.setState p .Running).process? p = some (process.setState .Running) := by
    rw [process?_setState_same, found]
    rfl
  have same' : SameView ((os.setState p .Running).context (process.setState .Running)) reached :=
    ⟨same.id, same.layout, same.registers, same.size, same.bytes⟩
  have fits : process.layout.Fitting := stepped.separate.fitting found
  have fitting : ((os.setState p .Running).context (process.setState .Running)).process.layout.Fitting := fits
  have now : reached.NextContained := contained p initial start _ _ reached alone alive
  have noLoad := same'.not_loading now fitting
  have loadFits : (os.context process).LoadFits files := by
    intro path load
    have none : (os.context process).loadPath? = none := noLoad
    rw [none] at load
    cases load
  have apart := stepProcess_apart stepped.separate known found loadFits
  have numbered := stepped.numbered.stepProcess files id
  have execution := executeInstruction_execution files (os.setState p .Running) p (process.setState .Running)
  rw [ran] at apart numbered
  rw [← stepProcess_of_find known found, ran] at execution
  have step := same'.step now fitting
  cases execution with
  | loaded completes load =>
    rw [noLoad] at load
    cases load
  | @finished result ctx began =>
    rcases began' : VirtualMachine.beginInstruction reached with ⟨other, further⟩
    rw [began, began'] at step
    obtain ⟨outcome, view, words, mine, theirs⟩ := step
    dsimp only at outcome view mine theirs
    subst outcome
    have output : ((os.setState p .Running).update p ctx).output =
        os.output ++ words.map (fun value => (process.id, value)) := mine
    refine ⟨apart.separate, numbered, fun q after here => ?_, fun q initial start => ?_⟩
    · by_cases own : q = p
      · subst own
        rw [process?_update_same _ _ running] at here
        cases here
        have id : ctx.process.id = process.id := by
          have frame := beginInstruction_frame ((os.setState q .Running).context (process.setState .Running))
          rw [began] at frame
          exact frame.id
        have sameId : reached.process.id = process.id := same.id.symm
        refine ⟨initial, further, start, ?_, ⟨view.id, view.layout, view.registers, view.size, view.bytes⟩, ?_⟩
        · rw [Function.update_self, Function.update_self, ExecutionContext.alone, alone, Option.bind_some]
          exact aloneStep_finished alive began'
        · rw [output, theirs, printed_append, printed_append, id, sameId, print]
      · rw [Function.update_of_ne own, Function.update_of_ne own]
        have before : os.process? q = some after := by
          rw [process?_update_other _ _ own, process?_setState_other _ _ own] at here
          exact here
        exact stepped.stands_other apart found own before output
    · obtain ⟨process, here⟩ := stepped.complete q initial start
      exact exists_process? _ (by
        rw [length_update, length_setState]
        exact lt_length_of_process? here)

/-- A call of `step` executes as many instructions as it is asked to, unless its process ends before. -/
theorem stepLoop (stepped : os.Stepped sources count last)
    (contained : ∀ p initial, initial? sources p = some initial → initial.SelfContained)
    (known : os.processTable.find id = some p) (alive : ¬ (last p).Ends) {steps : Nat}
    (ran : stepLoop files id steps (last p) os = (.ok result, after)) :
    ∃ executed, (executed = steps ∨ executed ≤ steps ∧ result.Ends) ∧
      after.Stepped sources (Function.update count p (count p + executed)) (Function.update last p result) := by
  induction steps generalizing os count last with
  | zero =>
    cases ran
    refine ⟨0, Or.inl rfl, ?_⟩
    rwa [Nat.add_zero, Function.update_eq_self, Function.update_eq_self]
  | succ steps ih =>
    rw [VirtualOS.stepLoop] at ran
    rcases first : os.stepProcess files id with ⟨outcome, middle⟩
    rw [first] at ran
    cases outcome with
    | error e => cases ran
    | ok next =>
      have further := stepped.stepProcess contained known alive first
      dsimp only at ran
      split at ran
      · rename_i ends
        cases ran
        exact ⟨1, Or.inr ⟨Nat.succ_le_succ (Nat.zero_le steps), ends⟩, further⟩
      · rename_i goes
        have others := stepProcess_others files known
        rw [first] at others
        have stays : middle.processTable.find id = some p := ProcessTable.find_of_ids others.ids known
        obtain ⟨executed, asked, again⟩ :=
          ih further stays (by rwa [Function.update_self]) (by rwa [Function.update_self])
        rw [Function.update_self, Function.update_idem, Function.update_idem, Nat.add_assoc, Nat.add_comm 1] at again
        refine ⟨executed + 1, ?_, again⟩
        rcases asked with all | ⟨fewer, ends⟩
        · exact Or.inl (congrArg (· + 1) all)
        · exact Or.inr ⟨Nat.succ_le_succ fewer, ends⟩

/-- A call for a process that has not ended. -/
theorem step (stepped : os.Stepped sources count last)
    (contained : ∀ p initial, initial? sources p = some initial → initial.SelfContained)
    (known : os.processTable.find id = some p) (alive : ¬ (last p).Ends) {steps : Nat}
    (ran : os.step files id steps = (.ok result, after)) :
    ∃ executed latest, (executed = steps ∨ executed ≤ steps ∧ result.Ends) ∧ (latest.Ends ↔ result.Ends) ∧
      after.Stepped sources (Function.update count p (count p + executed)) (Function.update last p latest) := by
  cases steps with
  | zero =>
    cases ran
    refine ⟨0, last p, Or.inl rfl, iff_of_false alive not_ends_continue, ?_⟩
    rwa [Nat.add_zero, Function.update_eq_self, Function.update_eq_self]
  | succ steps =>
    have anyLast : VirtualOS.stepLoop files id (steps + 1) (last p) os = (.ok result, after) := ran
    obtain ⟨executed, asked, further⟩ := stepped.stepLoop contained known alive anyLast
    exact ⟨executed, result, asked, .rfl, further⟩

end Stepped

end VirtualOS

namespace StepSession

variable {sources : List Text} {meanings : List Meaning} {files : FileSystem} {session next : StepSession}
  {quantum : Nat} {input : List Word} {calls : List (ProcessId × Nat)} {p : ProcessRef} {process : ProcessControlBlock}

/-- The caller knows of each process whether it has ended. -/
def Sound (sources : List Text) (session : StepSession) : Prop :=
  ∃ count last, session.os.Stepped sources count last ∧ ∀ p, session.ended (p + 1) = true ↔ (last p).Ends

/-- The caller's knowledge stays right. -/
theorem Sound.step (sound : session.Sound sources)
    (contained : ∀ p initial, VirtualOS.initial? sources p = some initial → initial.SelfContained)
    {call : ProcessId × Nat}
    (taken : session.step files call = some next) : next.Sound sources := by
  obtain ⟨count, last, stepped, known⟩ := sound
  obtain ⟨id, steps⟩ := call
  rw [StepSession.step] at taken
  split at taken
  · cases taken
  · rename_i goes
    rcases ran : session.os.step files id steps with ⟨outcome, os⟩
    rw [ran] at taken
    cases outcome with
    | error e => cases taken
    | ok result =>
      cases taken
      have alive : ∀ p, id = p + 1 → ¬ (last p).Ends := by
        rintro p rfl ends
        exact goes ((known p).mpr ends)
      have told : ∀ (latest : ProcessRef → ExecutionResult), (∀ p, id = p + 1 → ((latest p).Ends ↔ result.Ends)) →
          (∀ p, id ≠ p + 1 → latest p = last p) →
          ∀ p, Function.update session.ended id (decide result.Ends) (p + 1) = true ↔ (latest p).Ends := by
        intro latest own others p
        by_cases mine : id = p + 1
        · rw [← mine, Function.update_self, decide_eq_true_iff, own p mine]
        · rw [Function.update_of_ne (Ne.symm mine), others p mine]
          exact known p
      cases found : session.os.processTable.find id with
      | none =>
        cases steps with
        | zero =>
          cases ran
          exact ⟨count, last, stepped,
            told last (fun p mine => iff_of_false (alive p mine) not_ends_continue) fun _ _ => rfl⟩
        | succ steps =>
          rw [VirtualOS.step, VirtualOS.stepLoop, VirtualOS.stepProcess_of_find_none found] at ran
          cases ran
      | some p =>
        obtain ⟨process, here⟩ := VirtualOS.process?_of_find found
        have isId : id = p + 1 := by
          rw [← stepped.numbered.ids p process here]
          exact (VirtualOS.id_of_find found here).symm
        obtain ⟨executed, latest, asked, ends, after⟩ := stepped.step contained found (alive p isId) ran
        refine ⟨_, _, after, told _ (fun q mine => ?_) fun q other => Function.update_of_ne ?_ _ _⟩
        · obtain rfl : q = p := Nat.succ.inj (mine.symm.trans isId)
          rw [Function.update_self]
          exact ends
        · rintro rfl
          exact other isId

/-- And so it is after every sequence of calls. -/
theorem sound_of_run (fits : ∀ source ∈ sources, VirtualOS.SourceFits source)
    (contained : ∀ p initial, VirtualOS.initial? sources p = some initial → initial.SelfContained)
    (ran : run (step files) { os := (VirtualOS.create quantum input).loadAll sources } calls = some session) :
    session.Sound sources := by
  have start : StepSession.Sound sources { os := (VirtualOS.create quantum input).loadAll sources } :=
    ⟨_, _, .loaded fits, fun p => iff_of_false Bool.false_ne_true not_ends_continue⟩
  exact run_invariant_of_step (fun session call next sound taken => sound.step contained taken) start ran

/-- Stepping agrees with running: whatever calls of `step` have brought a process
to its end, in whatever order with the calls for the others, it has the same
registers, flags, data and stack and has printed the same as in any complete call
of `run`, with any number of cores and any quantum. -/
theorem step_agrees_with_run {κ : Type} [DecidableEq κ] [Fintype κ] {quantum' : Nat} {input' : List Word}
    {rest : List (Action κ)} {machine : Machine κ} (fits : ∀ source ∈ sources, VirtualOS.SourceFits source)
    (contained : ∀ p initial, VirtualOS.initial? sources p = some initial → initial.SelfContained)
    (stepped : run (step files) { os := (VirtualOS.create quantum input).loadAll sources } calls = some session)
    (schedules : ∀ action ∈ rest, action.Schedules)
    (ran : Machine.run files (Machine.boot quantum' input') (sources.map .load ++ rest) = some machine)
    (lives : machine.terminated = false) (halted : machine.os.processTable.allHalted = true) :
    ∀ p process, session.os.process? p = some process → session.ended process.id = true →
      ∃ process', machine.process? p = some process' ∧
        Machine.SameOutcome (session.os.context process) (machine.os.context process') ∧
        printed session.os.output process.id = printed machine.os.output process'.id := by
  intro p process found ended
  obtain ⟨count, last, stepped, known⟩ := sound_of_run fits contained stepped
  obtain ⟨initial, reached, start, alone, same, print⟩ := stepped.stands p process found
  have ends : (last p).Ends := (known p).mp (stepped.numbered.ids p process found ▸ ended)
  have scheduled := Machine.scheduled_of_run fits contained schedules ran lives
  obtain ⟨process', here⟩ := scheduled.complete p initial start
  have all := ProcessTable.allHalted_iff.mp halted p process' here
  obtain ⟨initial', m, last', final, start', alone', ends', outcome, print'⟩ := scheduled.endsAsAlone here all
  cases start.symm.trans start'
  obtain ⟨-, rfl⟩ := alone_unique alone ends alone' ends'
  have mine : Machine.SameOutcome (session.os.context process) reached := .of_view same (stepped.separate.fitting found)
  have agree := mine.trans outcome.symm
  have id : process.id = process'.id := agree.id
  exact ⟨process', here, agree, by rw [print, print', id]⟩

/-- The second process first, and the first one in two calls, of which the last
asks for more instructions than there are. -/
def alternately : List (ProcessId × Nat) := [(2, 1), (1, 1), (1, 5)]

/-- Two programs that are stepped in turn end as they do on two cores. -/
theorem step_agrees_with_run_countAndHalt :
    ∃ (session : StepSession) (machine : Machine (Fin 2)),
      run (step Machine.oneFile)
        { os := (VirtualOS.create 1 []).loadAll Machine.countAndHalt } alternately = some session ∧
      Machine.run Machine.oneFile (Machine.boot 100 []) (Machine.countAndHalt.map .load ++ Machine.twoCores) =
        some machine ∧
      session.ended 1 = true ∧ session.ended 2 = true ∧
      ∀ p process, session.os.process? p = some process → session.ended process.id = true →
        ∃ process', machine.process? p = some process' ∧
          Machine.SameOutcome (session.os.context process) (machine.os.context process') ∧
          printed session.os.output process.id = printed machine.os.output process'.id := by
  have fits : ∀ source ∈ Machine.countAndHalt, VirtualOS.SourceFits source := by decide +kernel
  have alone : (run (step Machine.oneFile) { os := (VirtualOS.create 1 []).loadAll Machine.countAndHalt }
      alternately).map (fun session => (session.ended 1, session.ended 2)) = some (true, true) := by decide +kernel
  have cores : (Machine.run Machine.oneFile (Machine.boot 100 [])
      (Machine.countAndHalt.map .load ++ Machine.twoCores)).map (fun machine : Machine (Fin 2) =>
        (machine.terminated, machine.os.processTable.allHalted)) = some (false, true) := by decide +kernel
  obtain ⟨session, stepped, told⟩ := Option.map_eq_some_iff.mp alone
  obtain ⟨machine, ran, ended⟩ := Option.map_eq_some_iff.mp cores
  obtain ⟨first, second⟩ := Prod.mk.inj told
  obtain ⟨lives, halted⟩ := Prod.mk.inj ended
  exact ⟨session, machine, stepped, ran, first, second,
    step_agrees_with_run fits Machine.countAndHalt_contained stepped (by decide) ran lives halted⟩

end StepSession

end VirtualMachine
