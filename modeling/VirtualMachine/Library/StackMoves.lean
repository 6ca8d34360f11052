import Mathlib.Data.List.Basic
import Mathlib.Tactic.Common

/-- What one step of some system does to a stack. A pop comes with the value
that it delivers. -/
inductive StackMove (α : Type*)
  | push (value : α)
  | pop (value : α)
  | keep
  deriving DecidableEq

namespace StackMove

variable {α : Type*}

def height : StackMove α → Int
  | push _ => 1
  | pop _ => -1
  | keep => 0

/-- How much higher a stack is after these moves. -/
def rise : List (StackMove α) → Int
  | [] => 0
  | move :: moves => move.height + rise moves

@[simp] theorem rise_nil : rise ([] : List (StackMove α)) = 0 := rfl

@[simp] theorem rise_cons (move : StackMove α) (moves : List (StackMove α)) :
    rise (move :: moves) = move.height + rise moves := rfl

@[simp] theorem rise_append (first last : List (StackMove α)) : rise (first ++ last) = rise first + rise last := by
  induction first with
  | nil => rw [List.nil_append, rise_nil, Int.zero_add]
  | cons move first ih => rw [List.cons_append, rise_cons, rise_cons, ih, Int.add_assoc]

/-- No prefix of the moves takes away more than `room` elements. -/
def StaysAbove (room : Nat) (moves : List (StackMove α)) : Prop := ∀ before, before <+: moves → 0 ≤ room + rise before

/-- By count, every push is followed by its pop, and every pop is preceded by its push. -/
structure WellBracketed (moves : List (StackMove α)) : Prop where
  staysAbove : StaysAbove 0 moves
  level : rise moves = 0

/-- One move on a stack: only the top can be popped. -/
inductive Step : List α → StackMove α → List α → Prop
  | push (stack : List α) (value : α) : Step stack (.push value) (value :: stack)
  | pop (stack : List α) (value : α) : Step (value :: stack) (.pop value) stack
  | keep (stack : List α) : Step stack .keep stack

/-- A stack, the moves made on it, and the stack they leave. -/
inductive Run : List α → List (StackMove α) → List α → Prop
  | done (stack : List α) : Run stack [] stack
  | next {stack middle final : List α} {move : StackMove α} {moves : List (StackMove α)}
      (step : Step stack move middle) (rest : Run middle moves final) : Run stack (move :: moves) final

/-- The moves behind the first one, seen from the level it leads to. -/
theorem StaysAbove.tail {room next : Nat} {move : StackMove α} {moves : List (StackMove α)}
    (stays : StaysAbove room (move :: moves)) (level : (next : Int) = room + move.height) : StaysAbove next moves := by
  intro before earlier
  have whole := stays (move :: before) (List.cons_prefix_cons.mpr ⟨rfl, earlier⟩)
  rw [rise_cons] at whole
  omega

/-- The first move itself stays above. -/
theorem StaysAbove.head {room : Nat} {move : StackMove α} {moves : List (StackMove α)}
    (stays : StaysAbove room (move :: moves)) : 0 ≤ room + move.height := by
  have first := stays [move] (List.cons_prefix_cons.mpr ⟨rfl, List.nil_prefix⟩)
  simpa using first

/-- A pair of matching moves stays above where it starts. -/
theorem WellBracketed.staysAbove_matched {moves : List (StackMove α)} (bracketed : WellBracketed moves)
    (value word : α) : StaysAbove 0 (.push value :: (moves ++ [.pop word])) := by
  intro before earlier
  cases before with
  | nil => simp
  | cons move before =>
    obtain ⟨rfl, inner⟩ := List.cons_prefix_cons.mp earlier
    rcases List.prefix_concat_iff.mp inner with rfl | within
    · rw [rise_cons, rise_append, bracketed.level]
      simp [height]
    · have inside := bracketed.staysAbove before within
      rw [rise_cons, height]
      omega

/-- A move changes the height of the stack by one at most. -/
theorem Step.length {stack after : List α} {move : StackMove α} (step : Step stack move after) :
    (after.length : Int) = stack.length + move.height := by
  cases step with
  | push stack value =>
    rw [List.length_cons, height]
    omega
  | pop stack value =>
    rw [List.length_cons, height]
    omega
  | keep => rw [height, Int.add_zero]

/-- A move with room above the base leaves the base alone. -/
theorem Step.base_kept {above base stack after : List α} {move : StackMove α} (step : Step stack move after)
    (parts : stack = above ++ base) (room : 0 ≤ above.length + move.height) :
    ∃ left, after = left ++ base ∧ (left.length : Int) = above.length + move.height := by
  have lengths := step.length
  have kept : ∃ left, after = left ++ base := by
    cases step with
    | push stack value => exact ⟨value :: above, by rw [parts, List.cons_append]⟩
    | pop after value =>
      cases above with
      | nil => exact absurd room (by simp [height])
      | cons top above =>
        obtain ⟨rfl, lower⟩ := List.cons.inj parts
        exact ⟨above, lower⟩
    | keep => exact ⟨above, parts⟩
  obtain ⟨left, same⟩ := kept
  rw [same, parts, List.length_append, List.length_append] at lengths
  exact ⟨left, same, by omega⟩

namespace Run

variable {stack final : List α} {moves : List (StackMove α)}

/-- A run can be cut anywhere. -/
theorem split {first last : List (StackMove α)} (run : Run stack (first ++ last) final) :
    ∃ middle, Run stack first middle ∧ Run middle last final := by
  induction first generalizing stack with
  | nil => exact ⟨stack, .done stack, run⟩
  | cons move first ih =>
    cases run with
    | next step rest =>
      obtain ⟨middle, before, after⟩ := ih rest
      exact ⟨middle, .next step before, after⟩

/-- By induction on the moves, the height of the stack at the end is the one at the
start and the rise of all moves. -/
theorem length (run : Run stack moves final) : (final.length : Int) = stack.length + rise moves := by
  induction run with
  | done stack => simp
  | next step rest ih =>
    rw [ih, step.length, rise_cons]
    omega

/-- What lies below the lowest level the moves reach is left alone. -/
theorem base_kept {above base : List α} (run : Run stack moves final) (parts : stack = above ++ base)
    (stays : StaysAbove above.length moves) : ∃ left, final = left ++ base := by
  induction run generalizing above with
  | done stack => exact ⟨above, parts⟩
  | next step rest ih =>
    obtain ⟨left, same, lengths⟩ := step.base_kept parts stays.head
    exact ih same (stays.tail lengths)

/-- Well-bracketed moves give the stack back as it was. -/
theorem of_wellBracketed (run : Run stack moves final) (bracketed : WellBracketed moves) : final = stack := by
  obtain ⟨left, rfl⟩ := run.base_kept (List.nil_append stack).symm bracketed.staysAbove
  have same := run.length
  rw [bracketed.level, List.length_append] at same
  have empty : left = [] := List.length_eq_zero_iff.mp (by omega)
  rw [empty, List.nil_append]

/-- A pop delivers what the push that it matches has put there. -/
theorem matched {value word : α} (run : Run stack (.push value :: (moves ++ [.pop word])) final)
    (bracketed : WellBracketed moves) : word = value := by
  cases run with
  | next push rest =>
    cases push
    obtain ⟨middle, inside, last⟩ := rest.split
    rw [inside.of_wellBracketed bracketed] at last
    cases last with
    | next pop done =>
      cases pop
      rfl

end Run

end StackMove
