import Mathlib

/-!
# Actions on a state

A computation over a state either ends with a value, or ends early with a signal, or
does not end.  However it ends it leaves a state, so a caller can look at how it ended
and put back what it changed.  `Keeps` says what every ending preserves; there is one
rule for each way of building an action.
-/

namespace Deed.Library

variable {σ ε α β : Type}

/-- A computation over a state; `none` where it does not end. -/
def Action (σ ε α : Type) : Type := σ → Option (Except ε α × σ)

namespace Action

/-- Ends at once with a value. -/
def value (a : α) : Action σ ε α := fun state => some (.ok a, state)

/-- Ends at once with a signal. -/
def signal (e : ε) : Action σ ε α := fun state => some (.error e, state)

/-- Does not end. -/
def stuck : Action σ ε α := fun _ => none

/-- Goes on with the value, and with nothing after a signal. -/
def andThen (first : Action σ ε α) (next : α → Action σ ε β) : Action σ ε β := fun state =>
  match first state with
  | none => none
  | some (.error e, later) => some (.error e, later)
  | some (.ok a, later) => next a later

instance : Monad (Action σ ε) where
  pure := value
  bind := andThen

/-- Looks at the state. -/
def look (f : σ → α) : Action σ ε α := fun state => some (.ok (f state), state)

/-- Changes the state. -/
def change (f : σ → σ) : Action σ ε Unit := fun state => some (.ok (), f state)

/-- Ends with a value, which is how the action ends. -/
def attempt (action : Action σ ε α) : Action σ ε (Except ε α) := fun state =>
  (action state).map fun ended => (.ok ended.1, ended.2)

/-- Ends the way that was seen. -/
def settle (ended : Except ε α) : Action σ ε α := fun state => some (ended, state)

/-- Enters, runs the action, and leaves however it ended. -/
def within (enter leave : σ → σ) (action : Action σ ε α) : Action σ ε α := fun state =>
  (action (enter state)).map fun ended => (ended.1, leave ended.2)

/-! ## Running -/

@[simp]
theorem run_pure (a : α) (state : σ) :
    (pure a : Action σ ε α) state = some (.ok a, state) := rfl

@[simp]
theorem run_value (a : α) (state : σ) :
    (value a : Action σ ε α) state = some (.ok a, state) := rfl

@[simp]
theorem run_signal (e : ε) (state : σ) :
    (signal e : Action σ ε α) state = some (.error e, state) := rfl

@[simp]
theorem run_look (f : σ → α) (state : σ) :
    (look f : Action σ ε α) state = some (.ok (f state), state) := rfl

@[simp]
theorem run_change (f : σ → σ) (state : σ) :
    (change f : Action σ ε Unit) state = some (.ok (), f state) := rfl

@[simp]
theorem run_settle (ended : Except ε α) (state : σ) :
    (settle ended : Action σ ε α) state = some (ended, state) := rfl

theorem run_attempt {action : Action σ ε α} {state later : σ} {ended : Except ε α}
    (ran : action state = some (ended, later)) :
    action.attempt state = some (.ok ended, later) := by
  rw [attempt, ran]
  rfl

theorem run_bind_ok {first : Action σ ε α} {next : α → Action σ ε β} {state later : σ} {a : α}
    (ran : first state = some (.ok a, later)) : (first >>= next) state = next a later := by
  show andThen first next state = next a later
  rw [andThen, ran]

theorem run_bind_error {first : Action σ ε α} {next : α → Action σ ε β} {state later : σ}
    {e : ε} (ran : first state = some (.error e, later)) :
    (first >>= next) state = some (.error e, later) := by
  show andThen first next state = some (.error e, later)
  rw [andThen, ran]

theorem run_bind_none {first : Action σ ε α} {next : α → Action σ ε β} {state : σ}
    (ran : first state = none) : (first >>= next) state = none := by
  show andThen first next state = none
  rw [andThen, ran]

/-- A sequence that ended either went on or was cut short by a signal. -/
theorem bind_cases {first : Action σ ε α} {next : α → Action σ ε β} {state later : σ}
    {ended : Except ε β} (ran : (first >>= next) state = some (ended, later)) :
    (∃ a between, first state = some (.ok a, between) ∧
      next a between = some (ended, later)) ∨
    ∃ e, first state = some (.error e, later) ∧ ended = .error e := by
  cases done : first state with
  | none =>
      rw [run_bind_none done] at ran
      exact absurd ran.symm (Option.some_ne_none _)
  | some outcome =>
      rcases outcome with ⟨how, between⟩
      cases how with
      | ok a =>
          rw [run_bind_ok done] at ran
          exact Or.inl ⟨a, between, rfl, ran⟩
      | error e =>
          rw [run_bind_error done] at ran
          rcases Prod.mk.inj (Option.some.inj ran) with ⟨rfl, rfl⟩
          exact Or.inr ⟨e, rfl, rfl⟩

/-- A sequence that went on to a value is two actions that did. -/
theorem ok_of_bind {first : Action σ ε α} {next : α → Action σ ε β} {state later : σ} {b : β}
    (ran : (first >>= next) state = some (.ok b, later)) :
    ∃ a between, first state = some (.ok a, between) ∧ next a between = some (.ok b, later) := by
  rcases bind_cases ran with found | ⟨e, -, impossible⟩
  · exact found
  · cases impossible

theorem within_cases {enter leave : σ → σ} {action : Action σ ε α} {state later : σ}
    {ended : Except ε α} (ran : within enter leave action state = some (ended, later)) :
    ∃ between, action (enter state) = some (ended, between) ∧ leave between = later := by
  rcases Option.map_eq_some_iff.1 ran with ⟨⟨how, between⟩, done, same⟩
  rcases Prod.mk.inj same with ⟨rfl, rfl⟩
  exact ⟨between, done, rfl⟩

theorem attempt_cases {action : Action σ ε α} {state later : σ}
    {ended : Except ε (Except ε α)} (ran : action.attempt state = some (ended, later)) :
    ∃ how, action state = some (how, later) ∧ ended = .ok how := by
  rcases Option.map_eq_some_iff.1 ran with ⟨⟨how, between⟩, done, same⟩
  rcases Prod.mk.inj same with ⟨rfl, rfl⟩
  exact ⟨how, done, rfl⟩

/-- What comes after an attempt always comes. -/
theorem attempt_bind_cases {action : Action σ ε α} {next : Except ε α → Action σ ε β}
    {state later : σ} {ended : Except ε β}
    (ran : (action.attempt >>= next) state = some (ended, later)) :
    ∃ how between, action state = some (how, between) ∧
      next how between = some (ended, later) := by
  rcases bind_cases ran with ⟨how, between, done, went⟩ | ⟨e, done, -⟩
  · rcases attempt_cases done with ⟨found, acted, same⟩
    rw [Except.ok.inj same] at went
    exact ⟨found, between, acted, went⟩
  · rcases attempt_cases done with ⟨found, -, impossible⟩
    cases impossible

theorem run_change_bind (f : σ → σ) (next : Unit → Action σ ε β) (state : σ) :
    (change f >>= next) state = next () (f state) := rfl

theorem run_look_bind (f : σ → α) (next : α → Action σ ε β) (state : σ) :
    (look f >>= next) state = next (f state) state := rfl

/-! ## What every ending preserves -/

/-- However the action ends, the states before and after are related. -/
def Keeps (related : σ → σ → Prop) (action : Action σ ε α) : Prop :=
  ∀ ⦃state ended later⦄, action state = some (ended, later) → related state later

namespace Keeps

variable {related : σ → σ → Prop}

theorem stuck : Keeps related (stuck : Action σ ε α) :=
  fun _ _ _ ran => absurd ran.symm (Option.some_ne_none _)

theorem change {f : σ → σ} (changes : ∀ state, related state (f state)) :
    Keeps related (change f : Action σ ε Unit) := by
  intro state ended later ran
  rcases Prod.mk.inj (Option.some.inj ran) with ⟨-, rfl⟩
  exact changes state

theorem within {wider : σ → σ → Prop} {enter leave : σ → σ} {action : Action σ ε α}
    (keeps : Keeps related action)
    (restores : ∀ state later, related (enter state) later → wider state (leave later)) :
    Keeps wider (within enter leave action) := by
  intro state ended later ran
  rcases within_cases ran with ⟨between, done, rfl⟩
  exact restores state between (keeps done)

theorem attempt {action : Action σ ε α} (keeps : Keeps related action) :
    Keeps related action.attempt := by
  intro state ended later ran
  rcases attempt_cases ran with ⟨how, done, -⟩
  exact keeps done

section Reflexive

variable (refl : ∀ state, related state state)

include refl

theorem pure (a : α) : Keeps related (Pure.pure a : Action σ ε α) := by
  intro state ended later ran
  rcases Prod.mk.inj (Option.some.inj ran) with ⟨-, rfl⟩
  exact refl state

theorem signal (e : ε) : Keeps related (signal e : Action σ ε α) := by
  intro state ended later ran
  rcases Prod.mk.inj (Option.some.inj ran) with ⟨-, rfl⟩
  exact refl state

theorem look (f : σ → α) : Keeps related (look f : Action σ ε α) := by
  intro state ended later ran
  rcases Prod.mk.inj (Option.some.inj ran) with ⟨-, rfl⟩
  exact refl state

theorem settle (ended : Except ε α) : Keeps related (settle ended : Action σ ε α) := by
  intro state how later ran
  rcases Prod.mk.inj (Option.some.inj ran) with ⟨-, rfl⟩
  exact refl state

end Reflexive

theorem bind
    (trans : ∀ first second third, related first second → related second third →
      related first third)
    {first : Action σ ε α} {next : α → Action σ ε β} (keeps : Keeps related first)
    (continues : ∀ a, Keeps related (next a)) : Keeps related (first >>= next) := by
  intro state ended later ran
  rcases bind_cases ran with ⟨a, between, done, went⟩ | ⟨e, done, -⟩
  · exact trans _ _ _ (keeps done) (continues a went)
  · exact keeps done

end Keeps

end Action

end Deed.Library
