/-
# Where the cursor of a walk stands

A cursor faces what lies ahead of it, and its place and the number of members ahead have the same sum
wherever it goes: that is how far it may be moved. A cursor that is only moved on has been steady. A
walk keeps step with a reading that returns what it leaves, if it may make enough calls.

Key definitions: `Cursor.Steady`, `Cursor.Faces`, `Walk.Advances`, `Walk.Tracks`.
Key theorems: `Cursor.Faces.peek`, `Cursor.Faces.movedTo`, `Cursor.Faces.slice`,
`Walk.loop_induction`, `Walk.exists_passWhile`, `Walk.tracks_bind`.
-/
import Gleaner.Text.Remainder
import Gleaner.Walk

namespace Gleaner

open Gleaner.Text

variable {ε τ : Type} {row front rest : List τ} {last : Nat} {cursor after : Cursor}

namespace Cursor

/-- The cursor has never gone back. -/
def Steady (cursor : Cursor) : Prop :=
  cursor.trail.Pairwise (· ≥ ·)

theorem steady_start : start.Steady :=
  List.pairwise_singleton ..

/-- A cursor that is moved on keeps being steady. -/
theorem Steady.movedTo (h : cursor.Steady) (n : Nat) :
    (cursor.movedTo (cursor.place + n)).Steady := by
  refine List.pairwise_cons.2 ⟨fun place hplace => ?_, h⟩
  rcases List.mem_cons.1 hplace with rfl | hplace
  · exact Nat.le_add_right _ _
  · exact Nat.le_trans ((List.pairwise_cons.1 h).1 place hplace) (Nat.le_add_right _ _)

/-- No place at which a steady cursor has stood is behind the one where it stands. -/
theorem Steady.le (h : cursor.Steady) : ∀ place ∈ cursor.trail, place ≤ cursor.place :=
  List.forall_mem_cons.2 ⟨Nat.le_refl _, (List.pairwise_cons.1 h).1⟩

/-- The cursor faces what is left of a row, so many members before the last place. -/
structure Faces (row : List τ) (last : Nat) (rest : List τ) (cursor : Cursor) : Prop where
  ahead : row.drop cursor.place = rest
  last_eq : cursor.place + rest.length = last

namespace Faces

theorem length_le (h : cursor.Faces row last rest) : rest.length ≤ row.length := by
  rw [← h.ahead, List.length_drop]
  exact Nat.sub_le _ _

theorem peek (h : cursor.Faces row last rest) : row[cursor.place]? = rest.head? := by
  rw [← h.ahead, List.head?_drop]

theorem movedTo (front : List τ) (h : cursor.Faces row last (front ++ rest)) :
    (cursor.movedTo (cursor.place + front.length)).Faces row last rest := by
  refine ⟨?_, ?_⟩
  · show row.drop (cursor.place + front.length) = rest
    rw [← List.drop_drop, h.ahead, List.drop_left]
  · show cursor.place + front.length + rest.length = last
    rw [← h.last_eq, List.length_append, Nat.add_assoc]

theorem moved {a : τ} (h : cursor.Faces row last (a :: rest)) :
    (cursor.movedTo (cursor.place + 1)).Faces row last rest :=
  movedTo [a] h

/-- What a cursor has passed is what it faced before, up to what it faces now. -/
theorem slice (h : cursor.Faces row row.length (front ++ rest))
    (hafter : after.Faces row row.length rest) :
    (Walk.slice row cursor.place : Walk ε (List τ)).runFrom after = some (.ok front, after) := by
  have hsum : cursor.place + (front.length + rest.length) = row.length := by
    rw [← List.length_append]
    exact h.last_eq
  have hplace : after.place = cursor.place + front.length := by
    have hlast := hafter.last_eq
    omega
  have hrange : cursor.place ≤ after.place ∧ after.place ≤ row.length := by omega
  have htake : (row.drop cursor.place).take (after.place - cursor.place) = front := by
    rw [h.ahead, hplace, Nat.add_sub_cancel_left, List.take_left]
  rw [Walk.slice, Walk.runFrom_here_bind, if_pos hrange, htake, Walk.runFrom_pure]

end Faces
end Cursor

namespace Walk

open Cursor

variable {α : Type}

/-- Where a walk succeeds from where a cursor stands, it ends further on, and no further than the
end of the row. -/
def Advances (row : List τ) (walk : Walk ε α) (before : Cursor) : Prop :=
  ∀ after a, walk.runFrom before = some (.ok a, after) →
    before.place < after.place ∧ after.place ≤ row.length

/-- What a walk does that calls itself is shown as if it could call itself without end, as long as
each call is made where less is left of the row. -/
theorem loop_induction {P : List τ → Walk ε α → Prop} {body : Walk ε α → Walk ε α}
    (hbody : ∀ rest again, (∀ shorter : List τ, shorter.length < rest.length → P shorter again) →
      P rest (body again))
    (hrest : rest.length ≤ row.length) : P rest (loop row body) := by
  have hcalls : ∀ (calls : Nat) (rest : List τ), rest.length < calls →
      P rest (Nat.repeat body calls unfinished) := by
    intro calls
    induction calls with
    | zero => exact fun rest h => absurd h (Nat.not_lt_zero _)
    | succ calls ih =>
      exact fun rest h => hbody rest _ fun shorter hshorter =>
        ih shorter (Nat.lt_of_lt_of_le hshorter (Nat.le_of_lt_succ h))
  exact hcalls _ rest (Nat.lt_succ_of_le hrest)

/-- A walk past the members with a property ends in front of the first without it. -/
theorem exists_passWhile (p : τ → Bool) (h : cursor.Faces row last rest) :
    ∃ after, (passWhile p row : Walk ε Unit).runFrom cursor = some (.ok (), after) ∧
      after.Faces row last (rest.dropWhile p) ∧ (cursor.Steady → after.Steady) := by
  refine loop_induction (P := fun rest walk => ∀ cursor : Cursor, cursor.Faces row last rest →
    ∃ after, walk.runFrom cursor = some (.ok (), after) ∧
      after.Faces row last (rest.dropWhile p) ∧ (cursor.Steady → after.Steady))
    (fun rest again ih cursor h => ?_) h.length_le cursor h
  rw [runFrom_peek_bind, h.peek]
  cases rest with
  | nil => exact ⟨cursor, rfl, h, id⟩
  | cons a rest =>
    rw [List.head?_cons, Option.any_some, List.dropWhile_cons]
    by_cases ha : p a = true
    · obtain ⟨after, hrun, hfaces, hsteady⟩ := ih rest (Nat.lt_succ_self _) _ h.moved
      refine ⟨after, ?_, ?_, fun hcursor => hsteady (hcursor.movedTo 1)⟩
      · rw [if_pos ha, runFrom_move_bind]
        exact hrun
      · rwa [if_pos ha]
    · refine ⟨cursor, ?_, ?_, id⟩
      · rw [if_neg ha, runFrom_pure]
      · rwa [if_neg ha]

/-! ### Walks and readings -/

section

variable {β γ σ : Type} {A B : List τ → Prop} {enough more : Prop}
  {stands : List τ → Cursor → Prop} {fails : σ → Halt ε → Cursor → Prop}

/-- A run of a walk does what a reading does that returns what it leaves: it has the same result, and
the cursor stands in front of what is left, or the two fail alike. A walk that may not make enough
calls may be left without having ended. -/
def Tracks (enough : Prop) (stands : List τ → Cursor → Prop) (fails : σ → Halt ε → Cursor → Prop)
    (run : Option (Except (Halt ε) α × Cursor))
    (reading : Except σ (α × { rest : List τ // A rest })) : Prop :=
  run = none ∧ ¬enough ∨
    match reading with
    | .ok (a, rest) => ∃ after, run = some (.ok a, after) ∧ stands rest.val after
    | .error stop => ∃ why after, run = some (.error why, after) ∧ fails stop why after

theorem tracks_unfinished {reading : Except σ (α × { rest : List τ // A rest })} (h : ¬enough) :
    Tracks enough stands fails ((unfinished : Walk ε α).runFrom cursor) reading :=
  .inl ⟨runFrom_unfinished, h⟩

theorem tracks_pure {a : α} {left : { rest : List τ // A rest }} (h : stands left.val cursor) :
    Tracks enough stands fails ((pure a : Walk ε α).runFrom cursor) (.ok (a, left)) :=
  .inr ⟨cursor, rfl, h⟩

theorem tracks_error {stop : σ} {why : Halt ε} {run : Option (Except (Halt ε) α × Cursor)}
    (hrun : run = some (.error why, after)) (h : fails stop why after) :
    Tracks enough stands fails run
      (.error stop : Except σ (α × { rest : List τ // A rest })) :=
  .inr ⟨why, after, hrun, h⟩

theorem tracks_bind {walk : Walk ε γ} {next : γ → Walk ε α}
    {reading : Except σ (γ × { rest : List τ // B rest })}
    {going : γ × { rest : List τ // B rest } → Except σ (α × { rest : List τ // A rest })}
    (h : Tracks enough stands fails (walk.runFrom cursor) reading)
    (hnext : ∀ found left after, stands left.val after →
      Tracks enough stands fails ((next found).runFrom after) (going (found, left))) :
    Tracks enough stands fails ((walk >>= next).runFrom cursor) (reading >>= going) := by
  obtain ⟨hrun, hfew⟩ | h := h
  · exact .inl ⟨runFrom_bind_of_none hrun, hfew⟩
  cases reading with
  | error stop =>
    obtain ⟨why, after, hrun, hfails⟩ := h
    exact tracks_error (runFrom_bind_of_error hrun) hfails
  | ok found =>
    obtain ⟨after, hrun, hafter⟩ := h
    rw [runFrom_bind_of_ok hrun]
    exact hnext found.1 found.2 after hafter

/-- Only what a reading gives and leaves counts. -/
theorem tracks_map {run : Option (Except (Halt ε) α × Cursor)}
    {reading : Except σ (α × { rest : List τ // B rest })}
    {g : α × { rest : List τ // B rest } → α × { rest : List τ // A rest }}
    (h : Tracks enough stands fails run reading)
    (hg : ∀ found, (g found).1 = found.1 ∧ (g found).2.val = found.2.val) :
    Tracks enough stands fails run (reading.map g) := by
  obtain hunfinished | h := h
  · exact .inl hunfinished
  cases reading with
  | error stop => exact .inr h
  | ok found =>
    obtain ⟨after, hrun, hafter⟩ := h
    refine .inr ⟨after, ?_, ?_⟩
    · rw [(hg found).1]
      exact hrun
    · rw [(hg found).2]
      exact hafter

namespace Tracks

variable {run : Option (Except (Halt ε) α × Cursor)}

/-- What is enough is also enough where more calls may be made. -/
theorem imp {reading : Except σ (α × { rest : List τ // A rest })}
    (h : Tracks enough stands fails run reading) (hmore : more → enough) :
    Tracks more stands fails run reading :=
  h.imp_left fun hunfinished => ⟨hunfinished.1, mt hmore hunfinished.2⟩

/-- Where the reading gives a value, the walk gives it too. -/
theorem of_ok {a : α} {left : { rest : List τ // A rest }}
    (h : Tracks enough stands fails run (.ok (a, left))) (henough : enough) :
    ∃ after, run = some (.ok a, after) ∧ stands left.val after :=
  h.resolve_left fun hunfinished => hunfinished.2 henough

/-- Where the reading fails, the walk halts. -/
theorem of_error {stop : σ}
    (h : Tracks enough stands fails run (.error stop : Except σ (α × { rest : List τ // A rest })))
    (henough : enough) : ∃ why after, run = some (.error why, after) ∧ fails stop why after :=
  h.resolve_left fun hunfinished => hunfinished.2 henough

/-- A walk goes on when it does what a reading does that takes something. -/
theorem advances {walk : Walk ε α} {rest : List τ} {reading : Except σ (α × Remainder rest)}
    (h : Tracks enough stands fails (walk.runFrom cursor) reading)
    (hbefore : cursor.Faces row last rest)
    (hstands : ∀ left after, stands left after → after.Faces row last left) :
    Advances row walk cursor := by
  intro after a hrun
  obtain ⟨hnone, -⟩ | h := h
  · rw [hrun] at hnone
    cases hnone
  cases reading with
  | error stop =>
    obtain ⟨_, _, hfail, -⟩ := h
    rw [hrun] at hfail
    cases hfail
  | ok found =>
    obtain ⟨_, hfound, hafter⟩ := h
    rw [hrun] at hfound
    cases hfound
    have hafter := hstands _ _ hafter
    have hleft : found.2.val.length < rest.length := found.2.property
    have hrest : row.length - cursor.place = rest.length := by
      rw [← List.length_drop, hbefore.ahead]
    have hlast := hbefore.last_eq
    have hend := hafter.last_eq
    exact ⟨by omega, by omega⟩

end Tracks
end

end Walk
end Gleaner
