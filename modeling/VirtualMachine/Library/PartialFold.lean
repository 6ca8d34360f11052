import Mathlib.Data.List.Basic

namespace PartialFold

variable {σ ι : Type} {step : σ → ι → Option σ} {s t : σ} {i : ι} {is js : List ι}

theorem cons_iff : (i :: is).foldlM step s = some t ↔ ∃ middle, step s i = some middle ∧
    is.foldlM step middle = some t := by
  rw [List.foldlM_cons]
  exact Option.bind_eq_some_iff

theorem append_iff :
    (is ++ js).foldlM step s = some t ↔ ∃ middle, is.foldlM step s = some middle ∧ js.foldlM step middle = some t := by
  rw [List.foldlM_append]
  exact Option.bind_eq_some_iff

/-- What every step that is taken relates, the whole relates. -/
theorem relates {R : σ → σ → Prop} (refl : ∀ s, R s s) (trans : ∀ a b c, R a b → R b c → R a c)
    (each : ∀ a i b, i ∈ is → step a i = some b → R a b) (ran : is.foldlM step s = some t) : R s t := by
  induction is generalizing s with
  | nil =>
    cases ran
    exact refl _
  | cons i is ih =>
    obtain ⟨middle, first, rest⟩ := cons_iff.mp ran
    have later := ih (fun a j b member => each a j b (List.mem_cons_of_mem _ member)) rest
    exact trans _ _ _ (each s i middle List.mem_cons_self first) later

/-- Steps that succeed from every state that has an invariant, and keep it,
succeed one after the other. -/
theorem succeeds {I : List ι → σ → Prop} (each : ∀ a i is, I (i :: is) a → ∃ b, step a i = some b ∧ I is b)
    (start : I is s) : ∃ t, is.foldlM step s = some t ∧ I [] t := by
  induction is generalizing s with
  | nil => exact ⟨s, rfl, start⟩
  | cons i is ih =>
    obtain ⟨middle, first, there⟩ := each s i is start
    obtain ⟨t, rest, done⟩ := ih there
    exact ⟨t, cons_iff.mpr ⟨middle, first, rest⟩, done⟩

/-- A step that commutes with each of some others can be taken after them. -/
theorem cons_comm (commute : ∀ s j, j ∈ js → (step s i).bind (step · j) = (step s j).bind (step · i)) :
    (step s i).bind (fun middle => js.foldlM step middle) = (js.foldlM step s).bind (step · i) := by
  induction js generalizing s with
  | nil => exact Option.bind_fun_some (step s i)
  | cons j js ih =>
    have later : ∀ s, (step s i).bind (fun middle => js.foldlM step middle) = (js.foldlM step s).bind (step · i) :=
      fun s => ih (fun s j member => commute s j (List.mem_cons_of_mem _ member))
    calc (step s i).bind (fun middle => (j :: js).foldlM step middle)
        = ((step s i).bind (step · j)).bind (fun middle => js.foldlM step middle) := by
          rw [Option.bind_assoc]
          rfl
      _ = (step s j).bind (fun middle => (step middle i).bind (fun middle => js.foldlM step middle)) := by
          rw [commute s j List.mem_cons_self, Option.bind_assoc]
      _ = (step s j).bind (fun middle => (js.foldlM step middle).bind (step · i)) :=
          congrArg (Option.bind (step s j)) (funext later)
      _ = ((j :: js).foldlM step s).bind (step · i) := by
          rw [← Option.bind_assoc]
          rfl

/-- Two runs whose steps commute can be taken in either order. -/
theorem append_comm (commute : ∀ s i j, i ∈ is → j ∈ js → (step s i).bind (step · j) = (step s j).bind (step · i)) :
    (is ++ js).foldlM step s = (js ++ is).foldlM step s := by
  induction is generalizing s with
  | nil => rw [List.nil_append, List.append_nil]
  | cons i is ih =>
    have rest : ∀ s, (is ++ js).foldlM step s = (js ++ is).foldlM step s :=
      fun s => ih (fun s k j member => commute s k j (List.mem_cons_of_mem _ member))
    calc ((i :: is) ++ js).foldlM step s
        = (step s i).bind (fun middle => (js ++ is).foldlM step middle) :=
          congrArg (Option.bind (step s i)) (funext rest)
      _ = (step s i).bind (fun middle => (js.foldlM step middle).bind (fun middle => is.foldlM step middle)) := by
          refine congrArg (Option.bind (step s i)) (funext fun middle => ?_)
          rw [List.foldlM_append]
          rfl
      _ = ((js.foldlM step s).bind (step · i)).bind (fun middle => is.foldlM step middle) := by
          rw [← Option.bind_assoc, cons_comm (fun s j => commute s i j List.mem_cons_self)]
      _ = (js ++ i :: is).foldlM step s := by
          rw [List.foldlM_append, Option.bind_assoc]
          rfl

section Related

variable {α β α' β' : Type} {R : α → β → Prop} {Q : α' → β' → Prop} {x : Option α} {y : Option β}

/-- Related results go on to related results. -/
theorem rel_bind {f : α → Option α'} {g : β → Option β'} (first : Option.Rel R x y)
    (rest : ∀ a b, R a b → Option.Rel Q (f a) (g b)) : Option.Rel Q (x.bind f) (y.bind g) := by
  cases first with
  | none => exact .none
  | some related => exact rest _ _ related

theorem rel_map {f : α → α'} {g : β → β'} (first : Option.Rel R x y) (rest : ∀ a b, R a b → Q (f a) (g b)) :
    Option.Rel Q (x.map f) (y.map g) := by
  cases first with
  | none => exact .none
  | some related => exact .some (rest _ _ related)

end Related

end PartialFold
