import Mathlib.Data.List.Basic
import Mathlib.Tactic.Common

namespace Fifo

variable {α : Type*}

/-- A queue, what is taken from its front in turn, and the queue that is left.
Any number of items may join at the back in between. -/
inductive Run : List α → List α → List α → Prop
  | done (queue : List α) : Run queue [] queue
  | enqueue {queue dequeued final : List α} (items : List α) (rest : Run (queue ++ items) dequeued final) :
      Run queue dequeued final
  | dequeue {item : α} {queue dequeued final : List α} (rest : Run queue dequeued final) :
      Run (item :: queue) (item :: dequeued) final

namespace Run

variable {queue dequeued final : List α}

/-- What leaves the queue, and what stays in it, is what has been in it,
followed by what has joined, in this order. -/
theorem law (run : Run queue dequeued final) : ∃ enqueued, queue ++ enqueued = dequeued ++ final := by
  induction run with
  | done queue => exact ⟨[], List.append_nil queue⟩
  | enqueue items rest ih =>
    obtain ⟨enqueued, same⟩ := ih
    exact ⟨items ++ enqueued, by rw [← List.append_assoc, same]⟩
  | dequeue rest ih =>
    obtain ⟨enqueued, same⟩ := ih
    exact ⟨enqueued, by rw [List.cons_append, same, List.cons_append]⟩

/-- An item leaves after exactly those ahead of it. -/
theorem getElem?_dequeued (run : Run queue dequeued final) {i : Nat} (queued : i < queue.length)
    (reached : i < dequeued.length) : dequeued[i]? = queue[i]? := by
  obtain ⟨enqueued, same⟩ := run.law
  have whole : (queue ++ enqueued)[i]? = (dequeued ++ final)[i]? := by rw [same]
  rw [List.getElem?_append_left queued, List.getElem?_append_left reached] at whole
  exact whole.symm

/-- An item does not leave before another one that is ahead of all its places. -/
theorem ahead_first {first second : α} (run : Run queue dequeued final) {i k : Nat} (here : queue[i]? = some first)
    (behind : ∀ j ≤ i, queue[j]? ≠ some second) (left : dequeued[k]? = some second) :
    ∃ j < k, dequeued[j]? = some first := by
  have bound : i < queue.length := (List.getElem?_eq_some_iff.mp here).1
  have reached : k < dequeued.length := (List.getElem?_eq_some_iff.mp left).1
  have later : i < k := by
    by_contra early
    rw [run.getElem?_dequeued (by omega) reached] at left
    exact behind k (Nat.le_of_not_lt early) left
  exact ⟨i, later, by rw [run.getElem?_dequeued bound (by omega), here]⟩

/-- An item that joins the queue does not leave before one that is waiting in it. -/
theorem no_overtaking {added : List α} {first second : α} (run : Run (queue ++ added) dequeued final)
    (waiting : first ∈ queue) (absent : second ∉ queue) {k : Nat} (left : dequeued[k]? = some second) :
    ∃ j < k, dequeued[j]? = some first := by
  obtain ⟨i, bound, here⟩ := List.mem_iff_getElem.mp waiting
  have front : ∀ j ≤ i, (queue ++ added)[j]? = queue[j]? := by
    intro j below
    exact List.getElem?_append_left (by omega)
  refine run.ahead_first (i := i) ?_ ?_ left
  · rw [front i (Nat.le_refl i), List.getElem?_eq_getElem bound, here]
  · intro j below same
    rw [front j below] at same
    exact absent (List.mem_of_getElem? same)

end Run

end Fifo
