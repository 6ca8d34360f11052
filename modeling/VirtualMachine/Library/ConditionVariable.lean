import Mathlib.Tactic.Common

/-- Where a thread stands in a wait. -/
inductive WaitState
  /-- It is not in the wait. -/
  | outside
  /-- It holds the lock and has found that the condition fails. -/
  | tested
  /-- It sleeps, and the lock is free. -/
  | asleep
  /-- It has been woken and is on its way to the lock. -/
  | woken
  deriving DecidableEq, Repr

namespace WaitState

/-- A notification reaches a thread only while it sleeps. -/
def notify : WaitState → WaitState
  | .asleep => .woken
  | state => state

/-- The thread will not look at the condition again unless it is woken. -/
def Blocked : WaitState → Prop
  | .tested | .asleep => True
  | .outside | .woken => False

instance : (state : WaitState) → Decidable state.Blocked
  | .tested | .asleep => isTrue trivial
  | .outside | .woken => isFalse id

/-- How many steps the thread takes at most before it sleeps. -/
def distance : WaitState → Nat
  | .outside | .woken => 2
  | .tested => 1
  | .asleep => 0

theorem distance_le (state : WaitState) : state.distance ≤ 2 := by
  cases state <;> decide

@[simp] theorem notify_eq_outside {state : WaitState} : state.notify = .outside ↔ state = .outside := by
  cases state <;> decide

theorem blocked_of_notify {state : WaitState} (blocked : state.notify.Blocked) : state.Blocked := by
  cases state with
  | tested | asleep => trivial
  | outside | woken => exact blocked

/-- A thread that does not hold the lock is not blocked after a notification. -/
theorem not_blocked_notify {state : WaitState} (free : state ≠ .tested) : ¬ state.notify.Blocked := by
  cases state with
  | outside | asleep | woken => exact id
  | tested => exact absurd rfl free

/-- No wake-up is lost: where the condition holds of a thread that is blocked,
its notification is on the way. -/
def Watched (condition announced : Prop) (state : WaitState) : Prop := state.Blocked → condition → announced

namespace Watched

variable {condition condition' announced announced' : Prop} {state : WaitState}

theorem outside : Watched condition announced .outside := fun blocked => blocked.elim

theorem woken : Watched condition announced .woken := fun blocked => blocked.elim

/-- The thread that tests holds the lock. -/
theorem tested (fails : ¬ condition) : Watched condition announced .tested := fun _ holds => absurd holds fails

theorem sleep (watched : Watched condition announced .tested) : Watched condition announced .asleep :=
  fun _ holds => watched trivial holds

/-- A notification that is given while nobody is between its test and its sleep
makes up for any change of the condition. -/
theorem notify (free : state ≠ .tested) : Watched condition announced state.notify :=
  fun blocked => absurd blocked (not_blocked_notify free)

/-- What makes the condition true announces it. -/
theorem change (watched : Watched condition announced state)
    (changed : state.Blocked → condition' → condition ∧ (announced → announced') ∨ announced') :
    Watched condition' announced' state := by
  intro blocked holds
  rcases changed blocked holds with ⟨held, still⟩ | now
  · exact still (watched blocked held)
  · exact now

end Watched

end WaitState
