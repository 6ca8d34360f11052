import VirtualMachine.LostWakeups
import VirtualMachine.RunTermination

namespace VirtualMachine

open TransitionSystem Machine Source ExecutionContext

namespace ThreadAction

variable {κ : Type}

/-- An action of a call of `run` that is under way. -/
def Continues : ThreadAction κ → Prop
  | .machine action => action.Continues
  | .wake _ | .wakeCaller => True

instance : (action : ThreadAction κ) → Decidable action.Continues
  | .machine action => inferInstanceAs (Decidable action.Continues)
  | .wake _ | .wakeCaller => isTrue trivial

/-- A wake-up for no reason, after which the thread tests and sleeps again, makes up to three steps. -/
def gain : ThreadAction κ → Nat
  | .machine _ => 0
  | .wake _ | .wakeCaller => 3

end ThreadAction

namespace Monitors

variable {κ : Type} [Fintype κ]

/-- How many steps the threads can spend on their waits and reports while the machine takes none. -/
def idling (threads : Monitors κ) : Nat :=
  ∑ c, (threads.cv c).distance + ∑ c, 3 * (threads.reporting c).toNat + threads.shutdownCv.distance

/-- How many steps there are still to take at most. -/
def toDo (threads : Monitors κ) (left : ProcessRef → Nat) : Nat :=
  (5 * Fintype.card κ + 3) * threads.machine.toDo left + threads.idling

theorem idling_le (threads : Monitors κ) : threads.idling ≤ 5 * Fintype.card κ + 2 := by
  have waits : ∑ c, (threads.cv c).distance ≤ ∑ _c : κ, 2 := Finset.sum_le_sum fun c _ => (threads.cv c).distance_le
  have reports : ∑ c, 3 * (threads.reporting c).toNat ≤ ∑ _c : κ, 3 := by
    refine Finset.sum_le_sum fun c _ => ?_
    cases threads.reporting c <;> decide
  have caller := threads.shutdownCv.distance_le
  rw [Finset.sum_const, Finset.card_univ, smul_eq_mul] at waits reports
  unfold idling
  omega

variable [DecidableEq κ] {files : FileSystem} {sources : List Text} {left : ProcessRef → Nat}
  {threads next : Monitors κ}
  {action : ThreadAction κ}

/-- A step that leaves the machine as it is leaves less to idle about. -/
theorem idling_of_step (taken : threads.step files action = some next) (continues : action.Continues) :
    (∃ a, action = .machine a ∧ a.Continues ∧ threads.machine.step files a = some next.machine) ∨
      next.machine = threads.machine ∧ next.idling < threads.idling + action.gain := by
  have wait : ∀ (c : κ) (state : WaitState),
      ({ threads with cv := Function.update threads.cv c state } : Monitors κ).idling + (threads.cv c).distance =
        threads.idling + state.distance := by
    intro c state
    have moved := Finset.sum_comp_update_add WaitState.distance threads.cv c state
    unfold idling
    dsimp only
    omega
  have awakeDistance : ∀ {state : WaitState}, ¬ state.Blocked → state.distance = 2 := by
    intro state awake
    cases state with
    | outside | woken => rfl
    | tested | asleep => exact absurd trivial awake
  cases step_move taken with
  | call other goesOn moved => exact Or.inl ⟨_, rfl, continues, moved⟩
  | start => exact continues.elim
  | core awake called free finds moved => exact Or.inl ⟨_, rfl, trivial, moved⟩
  | stop awake moved => exact Or.inl ⟨_, rfl, trivial, moved⟩
  | @test c awake quiet acquires nothing =>
    have spent := wait c .tested
    rw [awakeDistance awake] at spent
    exact Or.inr ⟨rfl, by simp only [WaitState.distance, ThreadAction.gain] at *; omega⟩
  | @sleep c tested =>
    have spent := wait c .asleep
    rw [tested] at spent
    exact Or.inr ⟨rfl, by simp only [WaitState.distance, ThreadAction.gain] at *; omega⟩
  | @report c awake calls free =>
    refine Or.inr ⟨rfl, ?_⟩
    have moved := Finset.sum_comp_update_add (fun reporting : Bool => 3 * reporting.toNat) threads.reporting c false
    rw [calls.1] at moved
    have caller : ∀ state : WaitState, state.notify.distance ≤ state.distance + 2 := by
      intro state
      cases state <;> decide
    have notified := caller threads.shutdownCv
    simp only [idling, ThreadAction.gain, Bool.toNat_true, Bool.toNat_false] at moved ⊢
    split <;> omega
  | testCaller awake waiting goes =>
    have spent := awakeDistance awake
    exact Or.inr ⟨rfl, by simp only [idling, WaitState.distance, ThreadAction.gain] at *; omega⟩
  | sleepCaller tested =>
    exact Or.inr ⟨rfl, by simp only [idling, tested, WaitState.distance, ThreadAction.gain]; omega⟩
  | @wake c asleep =>
    have spent := wait c .woken
    rw [asleep] at spent
    exact Or.inr ⟨rfl, by simp only [WaitState.distance, ThreadAction.gain] at *; omega⟩
  | wakeCaller asleep => exact Or.inr ⟨rfl, by simp only [idling, asleep, WaitState.distance, ThreadAction.gain]; omega⟩

/-- Everything the threads do leaves less to do, but for the wake-ups that have no reason. -/
theorem toDo_of_step (ending : threads.machine.Ending sources left)
    (contained : ∀ p initial, VirtualOS.initial? sources p = some initial → initial.SelfContained)
    (continues : action.Continues) (taken : threads.step files action = some next) :
    ∃ left', next.machine.Ending sources left' ∧ next.toDo left' < threads.toDo left + action.gain := by
  rcases idling_of_step taken continues with ⟨a, rfl, goes, moved⟩ | ⟨same, less⟩
  · obtain ⟨left', after, less⟩ := ending.step contained goes moved
    refine ⟨left', after, ?_⟩
    have scaled := Nat.mul_le_mul_left (5 * Fintype.card κ + 3) (Nat.succ_le_of_lt less)
    have idles := next.idling_le
    rw [Nat.mul_succ] at scaled
    unfold toDo
    omega
  · refine ⟨left, by rwa [same], ?_⟩
    unfold toDo
    rw [same, Nat.add_assoc]
    exact Nat.add_lt_add_left less _

theorem run_loads (files : FileSystem) (os : VirtualOS) (sources : List Text) (rest : List (ThreadAction κ)) :
    run files { machine := { os := os } } (sources.map (fun source => .machine (.load source)) ++ rest) =
      run files { machine := { os := os.loadAll sources } } rest := by
  induction sources generalizing os with
  | nil => rfl
  | cons source others ih => exact ih (os.loadProgramFromSource source).2

/-- A call of `run` is kept on its way by each of its steps. -/
structure OnTheWay (sources : List Text) (n : Nat) (threads : Monitors κ) : Prop where
  awake : threads.Awake
  ending : ∃ left, threads.machine.Ending sources left ∧ threads.toDo left = n

theorem OnTheWay.run {actions : List (ThreadAction κ)} {n : Nat} (onTheWay : threads.OnTheWay sources n)
    (contained : ∀ p initial, VirtualOS.initial? sources p = some initial → initial.SelfContained)
    (continues : ∀ action ∈ actions, action.Continues) (ran : Monitors.run files threads actions = some next) :
    ∃ m, actions.length + m ≤ n + TransitionSystem.credit ThreadAction.gain actions ∧ next.OnTheWay sources m := by
  refine run_length_le_add (fun n threads action after onTheWay continues taken => ?_) onTheWay
    (guarded_of_mem (fun action member _ => continues action member) threads) ran
  obtain ⟨left, ending, rfl⟩ := onTheWay.ending
  obtain ⟨left', ending', less⟩ := toDo_of_step ending contained continues taken
  have unstranding : threads.Unstranding files action := by
    cases action with
    | machine action => exact ending.unstranding contained continues
    | wake | wakeCaller => trivial
  exact ⟨_, less, onTheWay.awake.step unstranding taken, left', ending', rfl⟩

/-- The start of `run`, once the programs are loaded. -/
theorem OnTheWay.start {quantum : Nat} {input : List Word} (fits : ∀ source ∈ sources, VirtualOS.SourceFits source)
    (contained : ∀ p initial, VirtualOS.initial? sources p = some initial → initial.SelfContained)
    (ends : ∀ p initial, VirtualOS.initial? sources p = some initial → initial.EndsAfter (left p))
    (taken : ({ machine := { os := (VirtualOS.create quantum input).loadAll sources } } : Monitors κ).step files
      (.machine .start) = some threads) :
    threads.OnTheWay sources ((5 * Fintype.card κ + 3) *
        (5 * ∑ p ∈ Finset.range ((VirtualOS.create quantum input).loadAll sources).processTable.processes.length,
          left p + 2 * Fintype.card κ + 2) + (2 * Fintype.card κ + 2)) := by
  cases step_move taken with
  | call other goesOn => exact absurd rfl goesOn.2
  | @start machine moved =>
    obtain ⟨ending, toDo⟩ := Machine.Ending.start fits contained ends moved
    have same : machine.os.processTable = ((VirtualOS.create quantum input).loadAll sources).processTable := by
      cases Machine.step_move moved with
      | start => rfl
    rw [same] at toDo
    refine ⟨⟨ending.announced, fun _ waits => absurd rfl waits, fun waits => absurd rfl waits, fun _ _ => .outside,
      fun _ => .outside⟩, left, ending, ?_⟩
    rw [Monitors.toDo, toDo, idling]
    simp [WaitState.distance, Nat.mul_comm]

end Monitors

end VirtualMachine
