import Mathlib.Logic.Function.Basic
import Mathlib.Data.List.Basic

namespace WriteHistory

variable {α β : Type*}

/-- The values that a write puts at the places it reaches. -/
abbrev Write (α β : Type*) := α → Option β

def apply (store : α → β) (write : Write α β) : α → β := fun place => (write place).getD (store place)

/-- What a history, the oldest write first, has put last at a place. -/
def last? (place : α) : List (Write α β) → Option β
  | [] => none
  | write :: later => (last? place later).or (write place)

theorem foldl_apply (history : List (Write α β)) (store : α → β) (place : α) :
    history.foldl apply store place = (last? place history).getD (store place) := by
  induction history generalizing store with
  | nil => rfl
  | cons write later ih =>
    rw [List.foldl_cons, ih, last?]
    cases last? place later <;> rfl

end WriteHistory
