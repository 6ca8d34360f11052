import Mathlib.Logic.Function.Basic
import Mathlib.Data.List.Basic
import Mathlib.Tactic.Common

/-- A deterministic partial step for every action; the choice of the next
action is where all nondeterminism, such as an interleaving, lives. -/
abbrev TransitionSystem (σ α : Type*) := σ → α → Option σ

namespace TransitionSystem

variable {σ α : Type*} (step : TransitionSystem σ α)

/-- The state a list of actions leads to, if each is enabled in its turn. -/
def run (s : σ) : List α → Option σ
  | [] => some s
  | a :: rest => (step s a).bind (fun next => run next rest)

/-- Every action taken meets `guard` in the state before it. -/
def Guarded (guard : σ → α → Prop) (s : σ) : List α → Prop
  | [] => True
  | a :: rest => guard s a ∧ ∀ next, step s a = some next → Guarded guard next rest

/-- Guards that can be decided can be decided along a run. -/
instance Guarded.decidable {guard : σ → α → Prop} [∀ s a, Decidable (guard s a)] :
    (s : σ) → (actions : List α) → Decidable (Guarded step guard s actions)
  | _, [] => isTrue trivial
  | s, a :: rest =>
    match taken : step s a with
    | none => decidable_of_iff (guard s a) (by simp [Guarded, taken])
    | some next =>
      have remaining : Decidable (Guarded step guard next rest) := Guarded.decidable next rest
      decidable_of_iff (guard s a ∧ Guarded step guard next rest) (by simp [Guarded, taken])

variable {step}

@[simp] theorem run_nil (s : σ) : run step s [] = some s := rfl

theorem run_cons_iff {s final : σ} {a : α} {rest : List α} :
    run step s (a :: rest) = some final ↔ ∃ next, step s a = some next ∧ run step next rest = some final :=
  Option.bind_eq_some_iff

theorem run_append_iff {s final : σ} {before after : List α} :
    run step s (before ++ after) = some final ↔
      ∃ middle, run step s before = some middle ∧ run step middle after = some final := by
  induction before generalizing s with
  | nil => simp
  | cons a rest ih =>
    simp only [List.cons_append, run_cons_iff, ih]
    constructor
    · rintro ⟨next, taken, middle, first, last⟩
      exact ⟨middle, ⟨next, taken, first⟩, last⟩
    · rintro ⟨middle, ⟨next, taken, first⟩, last⟩
      exact ⟨next, taken, middle, first, last⟩

theorem guarded_append_iff {guard : σ → α → Prop} {s : σ} {before after : List α} :
    Guarded step guard s (before ++ after) ↔
      Guarded step guard s before ∧
        ∀ middle, run step s before = some middle → Guarded step guard middle after := by
  induction before generalizing s with
  | nil => simp [Guarded]
  | cons a rest ih =>
    simp only [List.cons_append, Guarded, ih, run_cons_iff]
    constructor
    · rintro ⟨here, later⟩
      refine ⟨⟨here, fun next taken => (later next taken).1⟩, ?_⟩
      rintro middle ⟨next, taken, reached⟩
      exact (later next taken).2 middle reached
    · rintro ⟨⟨here, later⟩, last⟩
      exact ⟨here, fun next taken => ⟨later next taken, fun middle reached => last middle ⟨next, taken, reached⟩⟩⟩

theorem guarded_of_forall {guard : σ → α → Prop} (all : ∀ s a, guard s a) (s : σ) (actions : List α) :
    Guarded step guard s actions := by
  induction actions generalizing s with
  | nil => trivial
  | cons a rest ih => exact ⟨all s a, fun next _ => ih next⟩

/-- A run whose actions meet the guard in any state. -/
theorem guarded_of_mem {guard : σ → α → Prop} {actions : List α} (all : ∀ a ∈ actions, ∀ s, guard s a) (s : σ) :
    Guarded step guard s actions := by
  induction actions generalizing s with
  | nil => trivial
  | cons a rest ih => exact ⟨all a (.head rest) s, fun next _ => ih (fun b member => all b (.tail a member)) next⟩

theorem Guarded.and {guard other : σ → α → Prop} {s : σ} {actions : List α} (first : Guarded step guard s actions)
    (second : Guarded step other s actions) : Guarded step (fun s a => guard s a ∧ other s a) s actions := by
  induction actions generalizing s with
  | nil => trivial
  | cons a rest ih =>
    exact ⟨⟨first.1, second.1⟩, fun next taken => ih (first.2 next taken) (second.2 next taken)⟩

/-- The invariant rule for guarded runs: what holds at the start and is kept by
every guarded step holds wherever a guarded run arrives. -/
theorem run_invariant {guard : σ → α → Prop} {invariant : σ → Prop}
    (kept : ∀ s a next, invariant s → guard s a → step s a = some next → invariant next)
    {s final : σ} {actions : List α} (start : invariant s) (guarded : Guarded step guard s actions)
    (ran : run step s actions = some final) : invariant final := by
  induction actions generalizing s with
  | nil =>
    cases ran
    exact start
  | cons a rest ih =>
    obtain ⟨next, taken, remaining⟩ := run_cons_iff.mp ran
    exact ih (kept s a next start guarded.1 taken) (guarded.2 next taken) remaining

/-- The invariant rule for all runs. -/
theorem run_invariant_of_step {invariant : σ → Prop}
    (kept : ∀ s a next, invariant s → step s a = some next → invariant next)
    {s final : σ} {actions : List α} (start : invariant s) (ran : run step s actions = some final) :
    invariant final := by
  have guarded : Guarded step (fun _ _ => True) s actions := guarded_of_forall (fun _ _ => trivial) s actions
  exact run_invariant (fun s a next holds _ taken => kept s a next holds taken) start guarded ran

/-- What the actions of a list add up to. -/
def credit (gain : α → Nat) : List α → Nat
  | [] => 0
  | a :: rest => gain a + credit gain rest

theorem credit_zero (actions : List α) : credit (fun _ => 0) actions = 0 := by
  induction actions with
  | nil => rfl
  | cons a rest ih => exact (Nat.zero_add _).trans ih

/-- The termination rule for guarded runs with credit: where every guarded step
leaves less to do, but for what its action may add, a run has no more steps than
there was to do at its start and than its actions have added. -/
theorem run_length_le_add {guard : σ → α → Prop} {gain : α → Nat} {within : Nat → σ → Prop}
    (decreases : ∀ n s a next, within n s → guard s a → step s a = some next → ∃ m, m < n + gain a ∧ within m next)
    {s final : σ} {actions : List α} {n : Nat} (start : within n s) (guarded : Guarded step guard s actions)
    (ran : run step s actions = some final) : ∃ m, actions.length + m ≤ n + credit gain actions ∧ within m final := by
  induction actions generalizing s n with
  | nil =>
    cases ran
    exact ⟨n, Nat.le_of_eq (Nat.zero_add n), start⟩
  | cons a rest ih =>
    obtain ⟨next, taken, remaining⟩ := run_cons_iff.mp ran
    obtain ⟨k, less, here⟩ := decreases n s a next start guarded.1 taken
    obtain ⟨m, bound, last⟩ := ih here (guarded.2 next taken) remaining
    exact ⟨m, by rw [List.length_cons, credit]; omega, last⟩

/-- The termination rule for guarded runs: where every guarded step leaves less
to do, a run has no more steps than there was to do at its start. -/
theorem run_length_le {guard : σ → α → Prop} {within : Nat → σ → Prop}
    (decreases : ∀ n s a next, within n s → guard s a → step s a = some next → ∃ m, m < n ∧ within m next)
    {s final : σ} {actions : List α} {n : Nat} (start : within n s) (guarded : Guarded step guard s actions)
    (ran : run step s actions = some final) : ∃ m, actions.length + m ≤ n ∧ within m final := by
  have credited : ∃ m, actions.length + m ≤ n + credit (fun _ => 0) actions ∧ within m final :=
    run_length_le_add decreases start guarded ran
  rwa [credit_zero] at credited

/-- The rule of refinement with stuttering: where a step shows as nothing or as a
guarded step of another system, a run shows as a guarded run of it. -/
theorem run_refines {τ β : Type*} {coarse : TransitionSystem τ β} {guard : σ → α → Prop} {guard' : τ → β → Prop}
    {view : σ → τ}
    (shows : ∀ s a next, guard s a → step s a = some next →
      view next = view s ∨ ∃ b, guard' (view s) b ∧ coarse (view s) b = some (view next))
    {s final : σ} {actions : List α} (guarded : Guarded step guard s actions) (ran : run step s actions = some final) :
    ∃ actions', Guarded coarse guard' (view s) actions' ∧ run coarse (view s) actions' = some (view final) := by
  induction actions generalizing s with
  | nil =>
    cases ran
    exact ⟨[], trivial, rfl⟩
  | cons a rest ih =>
    obtain ⟨next, taken, remaining⟩ := run_cons_iff.mp ran
    obtain ⟨later, guardedLater, ranLater⟩ := ih (guarded.2 next taken) remaining
    rcases shows s a next guarded.1 taken with same | ⟨b, allowed, coarseTaken⟩
    · rw [same] at guardedLater ranLater
      exact ⟨later, guardedLater, ranLater⟩
    · refine ⟨b :: later, ⟨allowed, fun middle reached => ?_⟩, run_cons_iff.mpr ⟨_, coarseTaken, ranLater⟩⟩
      cases coarseTaken.symm.trans reached
      exact guardedLater

/-- Where every action is enabled, a property holds all along a run exactly when
it holds at the start and every action taken meets the condition that decides
whether the property survives it. -/
theorem forall_reached_iff {guard : σ → α → Prop} {P : σ → Prop} (enabled : ∀ s a, ∃ next, step s a = some next)
    (decides : ∀ s a next, P s → step s a = some next → (P next ↔ guard s a)) {s : σ} {actions : List α} :
    (∀ before reached, before <+: actions → run step s before = some reached → P reached) ↔
      P s ∧ Guarded step guard s actions := by
  induction actions generalizing s with
  | nil =>
    constructor
    · intro all
      exact ⟨all [] s List.nil_prefix rfl, trivial⟩
    · rintro ⟨start, -⟩ before reached earlier ran
      rw [List.prefix_nil.mp earlier] at ran
      cases ran
      exact start
  | cons a rest ih =>
    constructor
    · intro all
      have start : P s := all [] s List.nil_prefix rfl
      have later : ∀ next, step s a = some next → P next ∧ Guarded step guard next rest := by
        intro next taken
        refine ih.mp (fun before reached earlier ran => ?_)
        exact all (a :: before) reached (List.cons_prefix_cons.mpr ⟨rfl, earlier⟩)
          (run_cons_iff.mpr ⟨next, taken, ran⟩)
      obtain ⟨next, taken⟩ := enabled s a
      exact ⟨start, (decides s a next start taken).mp (later next taken).1, fun next taken => (later next taken).2⟩
    · rintro ⟨start, here, later⟩ before reached earlier ran
      cases before with
      | nil =>
        cases ran
        exact start
      | cons b before =>
        obtain ⟨rfl, inner⟩ := List.cons_prefix_cons.mp earlier
        obtain ⟨next, taken, remaining⟩ := run_cons_iff.mp ran
        exact ih.mpr ⟨(decides s b next start taken).mpr here, later next taken⟩ before reached inner remaining

end TransitionSystem
