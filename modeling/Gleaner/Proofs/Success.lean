/-
# Computations that succeed or fail

A computation put together from others succeeds exactly when those do, and what it gives is put
together from what they give.

What a computation gives, if anything, is its `toOption`: two computations with the same one succeed
together and give the same.

Key theorems: `bind_eq_ok_iff`, `bind_eq_error_iff`, `map_eq_ok_iff`, `mapError_eq_ok_iff`,
`toOption_bind`, `toOption_eq_iff`.
-/

namespace Gleaner

variable {ε ε' α β : Type} {x : Except ε α}

/-- What is computed in two steps comes about when each of them does. -/
theorem bind_eq_ok_iff {f : α → Except ε β} {b : β} :
    (x >>= f) = .ok b ↔ ∃ a, x = .ok a ∧ f a = .ok b := by
  cases x with
  | error reason => simp [bind, Except.bind]
  | ok a => simp [bind, Except.bind]

/-- It fails in the first step, or in the second with what the first gives. -/
theorem bind_eq_error_iff {f : α → Except ε β} {reason : ε} :
    (x >>= f) = .error reason ↔ x = .error reason ∨ ∃ a, x = .ok a ∧ f a = .error reason := by
  cases x with
  | error other => simp [bind, Except.bind]
  | ok a => simp [bind, Except.bind]

theorem map_eq_ok_iff {f : α → β} {b : β} : x.map f = .ok b ↔ ∃ a, x = .ok a ∧ f a = b := by
  cases x with
  | error reason => simp [Except.map]
  | ok a => simp [Except.map]

theorem mapError_eq_ok_iff {f : ε → ε'} {a : α} : x.mapError f = .ok a ↔ x = .ok a := by
  cases x with
  | error reason => exact iff_of_false (fun h => by cases h) (fun h => by cases h)
  | ok b =>
    change Except.ok b = (Except.ok a : Except ε' α) ↔ Except.ok b = (Except.ok a : Except ε α)
    rw [Except.ok.injEq, Except.ok.injEq]

theorem mapError_eq_error_iff {f : ε → ε'} {reason : ε'} :
    x.mapError f = .error reason ↔ ∃ e, x = .error e ∧ f e = reason := by
  cases x with
  | error e =>
    change Except.error (f e) = (Except.error reason : Except ε' α) ↔ _
    rw [Except.error.injEq]
    exact ⟨fun h => ⟨e, rfl, h⟩, fun ⟨_, he, h⟩ => Except.error.inj he ▸ h⟩
  | ok a => exact iff_of_false (fun h => by cases h) (fun ⟨_, h, _⟩ => by cases h)

/-- What is computed in two steps depends on what each of them gives, and not on how it fails. -/
theorem toOption_bind {f : α → Except ε β} :
    (x >>= f).toOption = x.toOption.bind fun a => (f a).toOption := by
  cases x with
  | error reason => rfl
  | ok a => rfl

/-- Computations that succeed together, and with the same result. -/
theorem toOption_eq_iff {y : Except ε' α} :
    x.toOption = y.toOption ↔ ∀ a, x = .ok a ↔ y = .ok a := by
  cases x with
  | error reason => cases y with
    | error reason' => exact iff_of_true rfl fun a => iff_of_false nofun nofun
    | ok b => exact iff_of_false nofun fun h => nomatch (h b).2 rfl
  | ok a => cases y with
    | error reason' => exact iff_of_false nofun fun h => nomatch (h a).1 rfl
    | ok b =>
      constructor
      · intro h c
        rw [Except.ok.injEq, Except.ok.injEq, Option.some.inj h]
      · intro h
        exact congrArg some (Except.ok.inj ((h a).1 rfl)).symm

end Gleaner
