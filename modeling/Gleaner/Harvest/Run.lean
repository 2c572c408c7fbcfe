/-
# Strategies and runs

A strategy answers a selector with a row of matches or a failure. A run is an outcome together with
the calls of strategies that were made for it, in order; after a failure nothing more is called.

Key definitions: `Strategy`, `Call`, `Run`, `Strategy.ask`, `Run.attempt`.
Key theorems: `Run.outcome_bind`, `Run.calls_bind`, `Run.bind_ok`, `Run.bind_error`.
-/
import Gleaner.Failure

namespace Gleaner

universe u

/-- A way to answer selectors. -/
structure Strategy where
  name : String
  evaluate : String → Except Failure (List Datum)

/-- A call of a strategy on a selector. -/
structure Call where
  strategy : String
  selector : String
  deriving DecidableEq, Repr

/-- An outcome, and the calls made for it. -/
structure Run (α : Type u) where
  outcome : Except Failure α
  calls : List Call

namespace Run

variable {α β : Type u}

/-- One run after another; what follows a failure does not take place. -/
def bind (first : Run α) (next : α → Run β) : Run β :=
  match first.outcome with
  | .ok a => ⟨(next a).outcome, first.calls ++ (next a).calls⟩
  | .error failure => ⟨.error failure, first.calls⟩

instance : Monad Run where
  pure a := ⟨.ok a, []⟩
  bind := bind

/-- The run that fails at once. -/
def fail (failure : Failure) : Run α :=
  ⟨.error failure, []⟩

/-- A run whose failure is an outcome like any other. -/
def attempt (run : Run α) : Run (Except Failure α) :=
  ⟨.ok run.outcome, run.calls⟩

@[simp] theorem outcome_pure (a : α) : (pure a : Run α).outcome = .ok a := rfl

@[simp] theorem calls_pure (a : α) : (pure a : Run α).calls = [] := rfl

theorem bind_ok {first : Run α} {a : α} (h : first.outcome = .ok a) (next : α → Run β) :
    (first >>= next) = ⟨(next a).outcome, first.calls ++ (next a).calls⟩ := by
  change first.bind next = _
  rw [bind, h]

theorem bind_error {first : Run α} {failure : Failure} (h : first.outcome = .error failure)
    (next : α → Run β) : (first >>= next) = ⟨.error failure, first.calls⟩ := by
  change first.bind next = _
  rw [bind, h]

@[simp] theorem outcome_fail (failure : Failure) :
    (fail failure : Run α).outcome = .error failure :=
  rfl

@[simp] theorem outcome_attempt (run : Run α) : run.attempt.outcome = .ok run.outcome := rfl

@[simp] theorem calls_fail (failure : Failure) : (fail failure : Run α).calls = [] := rfl

@[simp] theorem calls_attempt (run : Run α) : run.attempt.calls = run.calls := rfl

/-- The outcome of one run after another does not depend on the calls made. -/
@[simp] theorem outcome_bind (first : Run α) (next : α → Run β) :
    (first >>= next).outcome = first.outcome.bind fun a => (next a).outcome := by
  cases h : first.outcome with
  | ok a => rw [bind_ok h]; rfl
  | error failure => rw [bind_error h]; rfl

/-- The calls of one run after another: those of the first, and those of the next if it takes
place. -/
theorem calls_bind (first : Run α) (next : α → Run β) :
    (first >>= next).calls =
      first.calls ++
        match first.outcome with
        | .ok a => (next a).calls
        | .error _ => [] := by
  cases h : first.outcome with
  | ok a => rw [bind_ok h]
  | error failure => rw [bind_error h, List.append_nil]

/-- A run that only goes on with its outcome makes no further calls. -/
@[simp] theorem calls_bind_pure (run : Run α) (f : α → β) :
    (run >>= fun a => pure (f a)).calls = run.calls := by
  rw [calls_bind]
  cases run.outcome <;> exact List.append_nil _

end Run

/-- The run that calls a strategy on a selector. -/
def Strategy.ask (strategy : Strategy) (selector : String) : Run (List Datum) :=
  ⟨strategy.evaluate selector, [⟨strategy.name, selector⟩]⟩

@[simp] theorem Strategy.outcome_ask (strategy : Strategy) (selector : String) :
    (strategy.ask selector).outcome = strategy.evaluate selector := rfl

@[simp] theorem Strategy.calls_ask (strategy : Strategy) (selector : String) :
    (strategy.ask selector).calls = [⟨strategy.name, selector⟩] := rfl

end Gleaner
