import Deed.Library.Action

/-!
# Actions that refuse

An action whose states decide neither whether it ends nor how: it always ends, with a value
or with one refusal that is known before it is run.  There is one rule for each way of building
an action, so what a long action refuses with is the first refusal among its parts.
-/

namespace Deed.Library.Action

variable {σ ε α β : Type}

/-- What an ending refuses with. -/
def refusal : Except ε α → Option ε
  | .ok _ => none
  | .error why => some why

/-- Whatever state it is run in, the action ends, and refuses with this or not at all. -/
def Refuses (why : Option ε) (action : Action σ ε α) : Prop :=
  ∀ state, ∃ ended later, action state = some (ended, later) ∧ refusal ended = why

namespace Refuses

variable {why other : Option ε}

theorem pure (a : α) : Refuses none (Pure.pure a : Action σ ε α) := by
  intro state
  exact ⟨.ok a, state, rfl, rfl⟩

theorem signal (e : ε) : Refuses (some e) (signal e : Action σ ε α) := by
  intro state
  exact ⟨.error e, state, rfl, rfl⟩

theorem look (f : σ → α) : Refuses none (look f : Action σ ε α) := by
  intro state
  exact ⟨.ok (f state), state, rfl, rfl⟩

theorem change (f : σ → σ) : Refuses none (change f : Action σ ε Unit) := by
  intro state
  exact ⟨.ok (), f state, rfl, rfl⟩

/-- A sequence refuses with what its first part refuses with, or else with what comes next
does. -/
theorem bind {first : Action σ ε α} {next : α → Action σ ε β} (refuses : Refuses why first)
    (continues : ∀ a, Refuses other (next a)) : Refuses (why.or other) (first >>= next) := by
  intro state
  rcases refuses state with ⟨ended, between, done, rfl⟩
  cases ended with
  | error e => exact ⟨.error e, between, run_bind_error done, rfl⟩
  | ok a =>
      rcases continues a between with ⟨ended, later, went, same⟩
      exact ⟨ended, later, (run_bind_ok done).trans went, same⟩

/-- A part that never refuses does not count. -/
theorem bind_none {first : Action σ ε α} {next : α → Action σ ε β}
    (refuses : Refuses none first) (continues : ∀ a, Refuses why (next a)) :
    Refuses why (first >>= next) := bind refuses continues

/-- Nor does what is answered in the end. -/
theorem map {first : Action σ ε α} {next : α → Action σ ε β} (refuses : Refuses why first)
    (continues : ∀ a, Refuses none (next a)) : Refuses why (first >>= next) := by
  have both := bind refuses continues
  rwa [Option.or_none] at both

theorem errors {action : Action σ ε α} {e : ε} (refuses : Refuses (some e) action) (state : σ) :
    ∃ later, action state = some (.error e, later) := by
  rcases refuses state with ⟨ended, later, done, same⟩
  cases ended with
  | ok a => exact absurd same.symm (Option.some_ne_none e)
  | error found =>
      cases same
      exact ⟨later, done⟩

theorem error {action : Action σ ε α} (refuses : Refuses why action) {state later : σ} {e : ε}
    (ran : action state = some (.error e, later)) : why = some e := by
  rcases refuses state with ⟨ended, after, done, rfl⟩
  rw [ran] at done
  cases (Prod.mk.inj (Option.some.inj done)).1
  rfl

/-- What comes after a refusal is not run. -/
theorem stop {first : Action σ ε α} {next : α → Action σ ε β} {e : ε}
    (refuses : Refuses (some e) first) : Refuses (some e) (first >>= next) := by
  intro state
  rcases errors refuses state with ⟨later, done⟩
  exact ⟨.error e, later, run_bind_error done, rfl⟩

end Refuses

end Deed.Library.Action
