import VirtualMachine.MachineMove

namespace VirtualMachine

open TransitionSystem

/-- What the place of a core in its loop says about the process it holds. -/
def CoreState.Consistent (os : VirtualOS) : CoreState → Prop
  | holding p | loading p _ _ => ∃ process, os.process? p = some process ∧ process.state = .Running
  | executed p _ => ∃ process, os.process? p = some process ∧
      (process.state = .Running ∨ process.state = .Halted ∧ process.context.halted = true)
  | releasing p _ => ∃ process, os.process? p = some process ∧ (process.state = .Running ∨ process.state = .Halted)
  | _ => True

namespace CoreState

variable {os after : VirtualOS} {state : CoreState} {p : ProcessRef}

theorem Consistent.held (consistent : state.Consistent os) (held : state.held = some p) :
    ∃ process, os.process? p = some process ∧ process.state ≠ .Ready := by
  have notReady : ∀ {s : ProcessState}, s = .Running ∨ s = .Halted → s ≠ .Ready := by
    rintro s (rfl | rfl) <;> decide
  cases state with
  | holding q | loading q child stage =>
    cases held
    obtain ⟨process, found, running⟩ := consistent
    exact ⟨process, found, notReady (Or.inl running)⟩
  | executed q result =>
    cases held
    obtain ⟨process, found, running | ⟨halted, -⟩⟩ := consistent
    · exact ⟨process, found, notReady (Or.inl running)⟩
    · exact ⟨process, found, notReady (Or.inr halted)⟩
  | releasing q preempt =>
    cases held
    obtain ⟨process, found, given⟩ := consistent
    exact ⟨process, found, notReady given⟩
  | seeking | idle | notifying | exited | terminated => cases held

/-- Only the process a core holds matters to its consistency. -/
theorem Consistent.congr (consistent : state.Consistent os)
    (same : ∀ p, state.held = some p → after.process? p = os.process? p) : state.Consistent after := by
  cases state with
  | holding q | loading q child stage | executed q result | releasing q preempt =>
    simpa only [Consistent, same q rfl] using consistent
  | seeking | idle | notifying | exited | terminated => trivial

end CoreState

namespace CoreMove

variable {files : FileSystem} {stopRequested : Bool} {os after : VirtualOS} {state next : CoreState}

/-- A step keeps a core consistent, as long as it does not publish the process it holds. -/
theorem consistent (move : CoreMove files stopRequested os state next after) (before : state.Consistent os)
    (apart : ∀ p, state ≠ .loading p p .emplaced) : next.Consistent after := by
  cases move with
  | leave | starve | look | throw | loadFails | preempt | pass | giveBack | drop | announce => trivial
  | acquire scheduler found ready =>
    exact ⟨_, (os.process?_modifyProcess_same _).trans (by rw [found]; rfl), rfl⟩
  | discard found halted =>
    obtain ⟨process, here, running⟩ := before
    exact ⟨process, here, Or.inl running⟩
  | @finish p process result ctx found alive began =>
    obtain ⟨same, here, running⟩ := before
    rw [found] at here
    cases here
    have frame := beginInstruction_frame (os.context process)
    rw [began] at frame
    refine ⟨ctx.process, os.process?_update_same ctx found, ?_⟩
    rcases frame.state with kept | halted
    · exact Or.inl (kept.trans running)
    · exact Or.inr halted
  | @emplace p process path source program layout physical found alive load opened accepted loaded =>
    obtain ⟨same, here, running⟩ := before
    rw [found] at here
    cases here
    refine ⟨process, ?_, running⟩
    rw [VirtualOS.process?_emplaced_old _ _ _ (by rw [os.length_update]; exact VirtualOS.lt_length_of_process? found)]
    exact os.process?_update_same _ found
  | @publish p child =>
    obtain ⟨process, here, running⟩ := before
    exact ⟨process, (os.process?_setState_other _ (fun same => apart p (by rw [← same]))).trans here, running⟩
  | @finishLoad p child =>
    obtain ⟨process, here, running⟩ := before
    have found : os.notifyProcessReady.process? p = some process := here
    refine ⟨(finishCall (some .Load) (os.notifyProcessReady.context process)).2.process, ?_, Or.inl running⟩
    rw [VirtualOS.finishLoad_eq found]
    exact VirtualOS.process?_update_same _ _ found
  | halt found ended =>
    exact ⟨_, (os.process?_setState_same _).trans (by rw [found]; rfl), Or.inr rfl⟩
  | fail found alive =>
    exact ⟨_, (os.process?_modifyProcess_same _).trans (by rw [found]; rfl), Or.inr rfl⟩
  | @yield p process result found alive continues =>
    obtain ⟨same, here, running | ⟨-, halted⟩⟩ := before
    · rw [found] at here
      cases here
      exact ⟨process.setShouldYield false, (os.process?_modifyProcess_same _).trans (by rw [found]; rfl),
        Or.inl running⟩
    · rw [found] at here
      cases here
      rw [alive] at halted
      cases halted
  | @expire p process result found alive continues =>
    obtain ⟨same, here, running | ⟨-, halted⟩⟩ := before
    · exact ⟨same, here, Or.inl running⟩
    · rw [found] at here
      cases here
      rw [alive] at halted
      cases halted
  | @keep p process result found alive continues =>
    obtain ⟨same, here, running | ⟨-, halted⟩⟩ := before
    · exact ⟨same, here, running⟩
    · rw [found] at here
      cases here
      rw [alive] at halted
      cases halted

/-- A core comes to hold a process only by taking it when it is ready. -/
theorem held_cases (move : CoreMove files stopRequested os state next after) {p : ProcessRef}
    (held : next.held = some p) :
    state.held = some p ∨ ∃ process, os.process? p = some process ∧ process.state = .Ready := by
  cases move with
  | acquire scheduler found ready =>
    cases held
    exact Or.inr ⟨_, found, ready⟩
  | leave | starve | look | throw | loadFails | preempt | pass | giveBack | drop | announce => cases held
  | discard | finish | emplace | publish | finishLoad | halt | fail | yield | expire | keep => exact Or.inl held

end CoreMove

namespace Machine

variable {κ : Type}

/-- The process that an action is about to set to ready because it has been loaded. -/
def published? (machine : Machine κ) : Action κ → Option ProcessRef
  | .core c =>
    match machine.cores c with
    | .loading _ child .emplaced => some child
    | _ => none
  | _ => none

/-- A loader does not set a process to ready that a core holds already. -/
def PublishesUnheld (machine : Machine κ) (action : Action κ) : Prop :=
  ∀ child ∈ machine.published? action, ∀ c, ¬ machine.Holds c child

instance [Fintype κ] (machine : Machine κ) (action : Action κ) : Decidable (machine.PublishesUnheld action) :=
  inferInstanceAs (Decidable (∀ child ∈ machine.published? action, ∀ c, ¬ machine.Holds c child))

/-- Distinct cores hold distinct processes, and the cores run only inside a call of `run`. -/
structure Exclusive (machine : Machine κ) : Prop where
  distinct : ∀ c d p, machine.Holds c p → machine.Holds d p → c = d
  consistent : ∀ c, (machine.cores c).Consistent machine.os
  idle : machine.phase = .idle → ∀ c, machine.cores c = .exited

namespace Exclusive

variable {files : FileSystem} {machine next : Machine κ} {action : Action κ}

theorem boot (quantum : Nat) (input : List Word) : (Machine.boot quantum input : Machine κ).Exclusive where
  distinct := by
    intro c d p held
    cases held
  consistent _ := trivial
  idle _ _ := rfl

/-- Nothing is held while no call of `run` is under way. -/
theorem of_idle {os : VirtualOS} (exclusive : machine.Exclusive) (idle : machine.phase = .idle) :
    ({ machine with os := os } : Machine κ).Exclusive where
  distinct := exclusive.distinct
  consistent c := by
    show (machine.cores c).Consistent os
    rw [exclusive.idle idle c]
    trivial
  idle := exclusive.idle

/-- The process of another core is neither taken, nor released, nor published by a step. -/
theorem kept_elsewhere (exclusive : machine.Exclusive) {c : κ} (unheld : machine.PublishesUnheld (.core c))
    {state : CoreState} {os : VirtualOS}
    (move : CoreMove files machine.stopRequested machine.os (machine.cores c) state os) :
    ∀ d, d ≠ c → ∀ p, machine.Holds d p → os.process? p = machine.os.process? p ∧ state.held ≠ some p := by
  intro d other p holds
  obtain ⟨process, found, notReady⟩ := (exclusive.consistent d).held holds
  have notBefore : (machine.cores c).held ≠ some p := fun holdsToo => other (exclusive.distinct d c p holds holdsToo)
  have notAfter : state.held ≠ some p := by
    intro held
    rcases move.held_cases held with before | ⟨same, here, ready⟩
    · exact notBefore before
    · rw [found] at here
      cases here
      exact notReady ready
  refine ⟨move.process?_kept (VirtualOS.lt_length_of_process? found) notBefore notAfter ?_, notAfter⟩
  intro q loading
  exact unheld p (by simp [published?, loading]) d holds

variable [DecidableEq κ] [Fintype κ]

theorem step (exclusive : machine.Exclusive) (unheld : machine.PublishesUnheld action)
    (taken : machine.step files action = some next) : next.Exclusive := by
  cases step_move taken with
  | load source idle => exact exclusive.of_idle idle
  | step id steps idle => exact exclusive.of_idle idle
  | start idle =>
    refine ⟨?_, fun _ => trivial, ?_⟩
    · intro c d p held
      cases held
    · intro impossible
      cases impossible
  | stop waiting halted =>
    refine ⟨exclusive.distinct, exclusive.consistent, ?_⟩
    intro impossible
    cases impossible
  | join stopping exited => exact ⟨exclusive.distinct, exclusive.consistent, fun _ => exited⟩
  | @core c state os move =>
    have kept := exclusive.kept_elsewhere unheld move
    refine ⟨?_, ?_, ?_⟩
    · intro d e p first second
      by_cases mine : d = c
      · subst mine
        by_cases same : e = d
        · exact same.symm
        · rw [holds_update_same] at first
          rw [holds_update_other same] at second
          exact absurd first (kept e same p second).2
      · rw [holds_update_other mine] at first
        by_cases same : e = c
        · subst same
          rw [holds_update_same] at second
          exact absurd second (kept d mine p first).2
        · rw [holds_update_other same] at second
          exact exclusive.distinct d e p first second
    · intro d
      by_cases mine : d = c
      · subst mine
        simp only [Function.update_self]
        refine move.consistent (exclusive.consistent d) (fun p loading => ?_)
        exact unheld p (by simp [published?, loading]) d (by rw [Holds, loading]; rfl)
      · simp only [Function.update_of_ne mine]
        exact (exclusive.consistent d).congr (fun p holds => (kept d mine p holds).1)
    · intro idle
      have exited := exclusive.idle idle c
      rw [exited] at move
      cases move with
      | leave stop top => simp at top

end Exclusive

variable [DecidableEq κ] [Fintype κ]

theorem exclusive_of_run {quantum : Nat} {input : List Word} {files : FileSystem} {actions : List (Action κ)}
    {machine : Machine κ} (guarded : Guarded (Machine.step files) PublishesUnheld (boot quantum input) actions)
    (ran : run files (boot quantum input) actions = some machine) : machine.Exclusive :=
  run_invariant (fun _ _ _ exclusive unheld taken => exclusive.step unheld taken) (Exclusive.boot quantum input)
    guarded ran

/-- Mutual exclusion over every interleaving of cores, loaders and interface
calls in which no loader comes late with its write of `Ready`, that is, after a
core has taken the process it has emplaced. -/
theorem mutual_exclusion {quantum : Nat} {input : List Word} {files : FileSystem} {actions : List (Action κ)}
    {machine : Machine κ} (guarded : Guarded (Machine.step files) PublishesUnheld (boot quantum input) actions)
    (ran : run files (boot quantum input) actions = some machine) {c d : κ} {p : ProcessRef}
    (first : machine.Holds c p) (second : machine.Holds d p) : c = d :=
  (exclusive_of_run guarded ran).distinct c d p first second

/-- The core of a machine with one core. -/
def onlyCore : Fin 1 := 0

/-- The cores of a machine with two cores. -/
def firstCore : Fin 2 := 0

def secondCore : Fin 2 := 1

/-- A program that loads another one from the file `a`. -/
def loaderSource : Text := "DATA:\nBYTE p 97\nBYTE z 0\nCODE:\ncall load, [p]\nhalt\n".toList

def haltSource : Text := "CODE:\nhalt\n".toList

/-- The file `a` holds a program that halts. -/
def oneFile : FileSystem := fun path => if path = [97] then some haltSource else none

/-- Core 0 publishes the new process before core 1 takes it. -/
def punctualLoad : List (Action (Fin 2)) :=
  [.load loaderSource, .start, .core firstCore, .core firstCore, .core firstCore, .core firstCore, .core secondCore]

theorem mutual_exclusion_punctualLoad :
    ∃ machine : Machine (Fin 2), run oneFile (boot 100 []) punctualLoad = some machine ∧ machine.Holds 0 0 ∧
      machine.Holds 1 1 ∧ ∀ c d p, machine.Holds c p → machine.Holds d p → c = d := by
  have guarded : Guarded (Machine.step oneFile) PublishesUnheld (boot 100 []) punctualLoad := by decide +kernel
  have held : (run oneFile (boot 100 []) punctualLoad).map
      (fun machine => decide (machine.Holds 0 0 ∧ machine.Holds 1 1)) = some true := by decide +kernel
  obtain ⟨machine, ran, holds⟩ := Option.map_eq_some_iff.mp held
  rw [decide_eq_true_eq] at holds
  exact ⟨machine, ran, holds.1, holds.2, fun c d p first second => mutual_exclusion guarded ran first second⟩

/-- Core 0 emplaces a process, core 1 takes it, and core 0 then sets it to ready
and announces it, so that core 2 takes it as well. -/
def lateLoad : List (Action (Fin 3)) :=
  [.load loaderSource, .load haltSource, .start, .core 0, .core 1, .core 0, .core 1, .core 1, .core 1, .core 1,
    .core 0, .core 0, .core 2]

theorem mutual_exclusion_fails_for_lateLoad :
    ¬ ∀ (quantum : Nat) (input : List Word) (files : FileSystem) (actions : List (Action (Fin 3)))
      (machine : Machine (Fin 3)), run files (boot quantum input) actions = some machine →
        ∀ c d p, machine.Holds c p → machine.Holds d p → c = d := by
  intro exclusion
  have held : (run oneFile (boot 100 []) lateLoad).map
      (fun machine => decide (machine.Holds 1 2 ∧ machine.Holds 2 2)) = some true := by decide +kernel
  obtain ⟨machine, ran, holds⟩ := Option.map_eq_some_iff.mp held
  rw [decide_eq_true_eq] at holds
  exact absurd (exclusion 100 [] oneFile lateLoad machine ran 1 2 2 holds.1 holds.2) (by decide)

end Machine

end VirtualMachine
