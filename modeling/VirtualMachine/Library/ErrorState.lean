import Mathlib.Order.Defs.Unbundled

namespace ErrorState

variable {ε σ τ υ α β : Type}

/-- A run against what its specification gives. Where `broken` holds the
specification need not know every failure of the run. -/
inductive Agrees (broken : Prop) (R : σ → τ → Prop) : EStateM.Result ε σ α → Option (α × τ) → Prop
  | ok {a : α} {s : σ} {t : τ} (related : R s t) : Agrees broken R (.ok a s) (some (a, t))
  | failed {e : ε} {s : σ} : Agrees broken R (.error e s) none
  | interrupted {e : ε} {s : σ} {spec : Option (α × τ)} (holds : broken) : Agrees broken R (.error e s) spec

variable {broken : Prop} {R : σ → τ → Prop} {Q : σ → υ → Prop} {s : σ} {t : τ}

/-- The second computation is needed only where the specification of the first
has a result. -/
theorem Agrees.bind {x : EStateM ε σ α} {g : α → EStateM ε σ β} {first : Option (α × τ)} {spec : Option (β × υ)}
    (ran : Agrees broken R (x s) first) (stop : first = none → spec = none)
    (go : ∀ a s' t', first = some (a, t') → R s' t' → Agrees broken Q (g a s') spec) :
    Agrees broken Q ((x >>= g) s) spec := by
  change Agrees broken Q (EStateM.bind x g s) spec
  unfold EStateM.bind
  cases ran' : x s with
  | ok a s' =>
    rw [ran'] at ran
    cases ran with
    | ok related => exact go a s' _ rfl related
  | error e s' =>
    rw [ran'] at ran
    cases ran with
    | failed =>
      rw [stop rfl]
      exact .failed
    | interrupted holds => exact .interrupted holds

/-- A first computation that is known to succeed, or to fail, can be run ahead. -/
theorem Agrees.bind_ok {x : EStateM ε σ α} {g : α → EStateM ε σ β} {spec : Option (β × τ)} {a : α} {s' : σ}
    (ran : x s = .ok a s') (rest : Agrees broken R (g a s') spec) : Agrees broken R ((x >>= g) s) spec := by
  change Agrees broken R (EStateM.bind x g s) spec
  unfold EStateM.bind
  rw [ran]
  exact rest

theorem Agrees.bind_error {x : EStateM ε σ α} {g : α → EStateM ε σ β} {spec : Option (β × τ)} {e : ε} {s' : σ}
    (ran : x s = .error e s') (unknown : spec = none ∨ broken) : Agrees broken R ((x >>= g) s) spec := by
  change Agrees broken R (EStateM.bind x g s) spec
  unfold EStateM.bind
  rw [ran]
  rcases unknown with rfl | holds
  · exact .failed
  · exact .interrupted holds

/-- Where nothing is broken, a run whose specification has a result returns it. -/
theorem Agrees.exists_ok {result : EStateM.Result ε σ α} {a : α} (agrees : Agrees broken R result (some (a, t)))
    (sound : ¬ broken) : ∃ s, result = .ok a s ∧ R s t := by
  cases agrees with
  | ok related => exact ⟨_, rfl, related⟩
  | interrupted holds => exact absurd holds sound

/-- The specifications of the basic computations; with the rule for sequences they
cover everything written in this monad. -/
theorem Agrees.pure {a : α} (related : R s t) : Agrees broken R ((pure a : EStateM ε σ α) s) (some (a, t)) :=
  .ok related

/-- A branch is taken on both sides alike. -/
theorem Agrees.ite {c : Prop} [Decidable c] {x y : EStateM ε σ α} {spec : Option (α × τ)}
    (yes : c → Agrees broken R (x s) spec) (no : ¬ c → Agrees broken R (y s) spec) :
    Agrees broken R ((if c then x else y) s) spec := by
  by_cases holds : c
  · rw [if_pos holds]
    exact yes holds
  · rw [if_neg holds]
    exact no holds

/-- An exception meets the specification that has no result. -/
theorem Agrees.throw {e : ε} : Agrees broken R ((throw e : EStateM ε σ α) s) none := .failed

/-- A computation that reads the state first. -/
theorem Agrees.get {g : σ → EStateM ε σ α} {spec : Option (α × τ)} (ran : Agrees broken R (g s s) spec) :
    Agrees broken R ((get >>= g) s) spec :=
  ran

/-- A run against its specification, which says as well what its failures are
like: of the one kind where `blame` holds, and of the other where it does not. A
run may also fail `late`, when what it was to do is done. -/
inductive Reports (R : σ → τ → Prop) (fair foul : ε → Prop) (late : ε → τ → Prop) (blame : Prop) :
    EStateM.Result ε σ α → Option (α × τ) → Prop
  | ok {a : α} {s : σ} {t : τ} (related : R s t) (blameless : ¬ blame) :
    Reports R fair foul late blame (.ok a s) (some (a, t))
  | fair {e : ε} {s : σ} (is : fair e) (blameless : ¬ blame) : Reports R fair foul late blame (.error e s) none
  | foul {e : ε} {s : σ} (is : foul e) (blamed : blame) : Reports R fair foul late blame (.error e s) none
  | late {e : ε} {a : α} {s : σ} {t : τ} (is : late e t) (blameless : ¬ blame) :
    Reports R fair foul late blame (.error e s) (some (a, t))

section Reports

variable {fair foul : ε → Prop} {late : ε → τ → Prop} {late' : ε → υ → Prop} {blame blame' : Prop}

/-- What comes before another computation must not fail late. -/
theorem Reports.bind {x : EStateM ε σ α} {g : α → EStateM ε σ β} {first : Option (α × τ)} {spec : Option (β × υ)}
    (ran : Reports R fair foul (fun _ _ => False) blame' (x s) first)
    (stop : first = none → spec = none ∧ (blame ↔ blame'))
    (go : ∀ a s' t', first = some (a, t') → R s' t' → Reports Q fair foul late' blame (g a s') spec) :
    Reports Q fair foul late' blame ((x >>= g) s) spec := by
  change Reports Q fair foul late' blame (EStateM.bind x g s) spec
  unfold EStateM.bind
  cases ran' : x s with
  | ok a s' =>
    rw [ran'] at ran
    cases ran with
    | ok related _ => exact go a s' _ rfl related
  | error e s' =>
    rw [ran'] at ran
    cases ran with
    | fair is blameless =>
      obtain ⟨none_, same⟩ := stop rfl
      rw [none_]
      exact .fair is (mt same.mp blameless)
    | foul is blamed =>
      obtain ⟨none_, same⟩ := stop rfl
      rw [none_]
      exact .foul is (same.mpr blamed)
    | late is _ => exact is.elim

/-- The same rules as above, for runs that say what their failures are like. -/
theorem Reports.bind_ok {x : EStateM ε σ α} {g : α → EStateM ε σ β} {spec : Option (β × υ)} {a : α} {s' : σ}
    (ran : x s = .ok a s') (rest : Reports Q fair foul late' blame (g a s') spec) :
    Reports Q fair foul late' blame ((x >>= g) s) spec := by
  change Reports Q fair foul late' blame (EStateM.bind x g s) spec
  unfold EStateM.bind
  rw [ran]
  exact rest

theorem Reports.bind_error {x : EStateM ε σ α} {g : α → EStateM ε σ β} {spec : Option (β × υ)} {e : ε} {s' : σ}
    (ran : x s = .error e s') (failed : Reports Q fair foul late' blame (.error e s' : EStateM.Result ε σ β) spec) :
    Reports Q fair foul late' blame ((x >>= g) s) spec := by
  change Reports Q fair foul late' blame (EStateM.bind x g s) spec
  unfold EStateM.bind
  rw [ran]
  exact failed

/-- Success is to be blamed on nothing. -/
theorem Reports.pure {a : α} (related : R s t) (blameless : ¬ blame) :
    Reports R fair foul late blame ((pure a : EStateM ε σ α) s) (some (a, t)) :=
  .ok related blameless

/-- An exception of the fair kind. -/
theorem Reports.throw {e : ε} (is : fair e) (blameless : ¬ blame) :
    Reports R fair foul late blame ((throw e : EStateM ε σ α) s) none := .fair is blameless

theorem Reports.ite {c : Prop} [Decidable c] {x y : EStateM ε σ α} {spec : Option (α × τ)}
    (yes : c → Reports R fair foul late blame (x s) spec) (no : ¬ c → Reports R fair foul late blame (y s) spec) :
    Reports R fair foul late blame ((if c then x else y) s) spec := by
  by_cases holds : c
  · rw [if_pos holds]
    exact yes holds
  · rw [if_neg holds]
    exact no holds

/-- A computation that reads the state first. -/
theorem Reports.get {g : σ → EStateM ε σ α} {spec : Option (α × τ)}
    (ran : Reports R fair foul late blame (g s s) spec) :
    Reports R fair foul late blame ((get >>= g) s) spec :=
  ran

/-- More failures may be taken for fair. -/
theorem Reports.mono {fair' : ε → Prop} {result : EStateM.Result ε σ α} {spec : Option (α × τ)}
    (reports : Reports R fair foul late blame result spec) (weaker : ∀ e, fair e → fair' e) (same : blame' ↔ blame) :
    Reports R fair' foul late blame' result spec := by
  cases reports with
  | ok related blameless => exact .ok related (mt same.mp blameless)
  | fair is blameless => exact .fair (weaker _ is) (mt same.mp blameless)
  | foul is blamed => exact .foul is (same.mpr blamed)
  | late is blameless => exact .late is (mt same.mp blameless)

/-- Where the specification has a result, a failure can only be a late one. -/
theorem Reports.of_some {fair' : ε → Prop} {result : EStateM.Result ε σ α} {out : α × τ}
    (reports : Reports R fair foul late blame result (some out)) :
    Reports R fair' foul late blame result (some out) := by
  cases reports with
  | ok related blameless => exact .ok related blameless
  | late is blameless => exact .late is blameless

/-- Without what its failures are like. -/
theorem Reports.agrees {R' : σ → τ → Prop} {result : EStateM.Result ε σ α} {spec : Option (α × τ)}
    (reports : Reports R fair foul late blame result spec) (weaker : ∀ s t, R s t → R' s t)
    (broken' : ∀ e t, late e t → broken) : Agrees broken R' result spec := by
  cases reports with
  | ok related _ => exact .ok (weaker _ _ related)
  | fair _ _ => exact .failed
  | foul _ _ => exact .failed
  | late is _ => exact .interrupted (broken' _ _ is)

end Reports

/-- A run of the computation that does not fail ends in a state to which the first
one is related. -/
def Moves (R : σ → σ → Prop) (x : EStateM ε σ α) : Prop := ∀ s a s', x s = .ok a s' → R s s'

section Moves

variable {R Q T : σ → σ → Prop} {x : EStateM ε σ α} {g : α → EStateM ε σ β}

/-- A sequence that succeeds has a state in the middle. -/
theorem exists_of_bind_ok {s s' : σ} {b : β} (ran : (x >>= g) s = .ok b s') :
    ∃ a t, x s = .ok a t ∧ g a t = .ok b s' := by
  change EStateM.bind x g s = .ok b s' at ran
  unfold EStateM.bind at ran
  cases first : x s with
  | ok a t =>
    rw [first] at ran
    exact ⟨a, t, rfl, ran⟩
  | error e t =>
    rw [first] at ran
    cases ran

/-- Two relations in sequence. The rules below follow the computation as those above
do, for one transitive relation. -/
theorem Moves.compose (composes : ∀ s t u, R s t → Q t u → T s u) (first : Moves R x) (rest : ∀ a, Moves Q (g a)) :
    Moves T (x >>= g) := by
  intro s b s' ran
  obtain ⟨a, t, ran', ran⟩ := exists_of_bind_ok ran
  exact composes s t s' (first s a t ran') (rest a t b s' ran)

theorem Moves.bind [IsTrans σ R] (first : Moves R x) (rest : ∀ a, Moves R (g a)) : Moves R (x >>= g) :=
  first.compose (fun _ _ _ => IsTrans.trans _ _ _) rest

theorem Moves.pure [Std.Refl R] (a : α) : Moves R (pure a : EStateM ε σ α) := by
  intro s a s' ran
  cases ran
  exact Std.Refl.refl _

/-- A computation that always fails moves nowhere. -/
theorem Moves.throw (e : ε) : Moves R (throw e : EStateM ε σ α) := by
  intro s a s' ran
  cases ran

theorem Moves.modify {f : σ → σ} (related : ∀ s, R s (f s)) : Moves R (modify f : EStateM ε σ PUnit) := by
  intro s a s' ran
  cases ran
  exact related s

theorem Moves.get [IsTrans σ R] [Std.Refl R] {h : σ → EStateM ε σ β} (rest : ∀ s, Moves R (h s)) :
    Moves R (get >>= h) :=
  fun s b s' ran => rest s s b s' ran

theorem Moves.ite {c : Prop} [Decidable c] {y : EStateM ε σ α} (yes : Moves R x) (no : Moves R y) :
    Moves R (if c then x else y) := by
  by_cases holds : c
  · rw [if_pos holds]
    exact yes
  · rw [if_neg holds]
    exact no

end Moves

end ErrorState
