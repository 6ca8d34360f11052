import Mathlib.Algebra.BigOperators.Fin
import Mathlib.Tactic.Common

namespace Finset

variable {ι α M : Type*} [DecidableEq ι] [AddCommMonoid M]

/-- One new summand in the place of an old one, without a subtraction: the new
sum and the old summand are as much as the old sum and the new summand. -/
theorem sum_update_add {s : Finset ι} {i : ι} (member : i ∈ s) (f : ι → M) (x : M) :
    ∑ j ∈ s, Function.update f i x j + f i = ∑ j ∈ s, f j + x := by
  rw [Finset.sum_update_of_mem member, Finset.sdiff_singleton_eq_erase, add_assoc, Finset.sum_erase_add s f member,
    add_comm]

/-- The same of a measure of the values that are summed. -/
theorem sum_comp_update_add [Fintype ι] (f : α → M) (g : ι → α) (i : ι) (a : α) :
    ∑ j, f (Function.update g i a j) + f (g i) = ∑ j, f (g j) + f a := by
  have moved : (fun j => f (Function.update g i a j)) = Function.update (fun j => f (g j)) i (f a) := by
    funext j
    exact Function.apply_update (fun _ => f) g i a j
  rw [moved]
  exact Finset.sum_update_add (Finset.mem_univ i) (fun j => f (g j)) (f a)

end Finset
