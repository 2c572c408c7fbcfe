/-
# Walks of a cursor

A walk goes over a row with a cursor: it looks at what stands there, moves on, and may halt with a
fault. The cursor is moved without asking how long the row is, and the cursor remembers the places at
which it has stood. A walk may call itself only so often. Nothing in the definitions says that this is
enough for it to end; where it is not, the walk has no outcome.

Key definitions: `Cursor`, `Halt`, `Walk`, `Walk.runFrom`, `Walk.peek`, `Walk.move`, `Walk.slice`,
`Walk.loop`, `Walk.passWhile`.
-/

namespace Gleaner

variable {ε τ α β : Type}

/-- A cursor on a row, which stands in front of the member at its place, if there is one. -/
structure Cursor where
  place : Nat
  /-- The places at which it has stood before, the last one first. -/
  before : List Nat

namespace Cursor

/-- The cursor in front of a row. -/
def start : Cursor :=
  ⟨0, []⟩

/-- All the places at which the cursor has stood, the last one first. -/
def trail (cursor : Cursor) : List Nat :=
  cursor.place :: cursor.before

/-- The cursor at a place to which it is moved. -/
def movedTo (cursor : Cursor) (place : Nat) : Cursor :=
  ⟨place, cursor.trail⟩

end Cursor

/-- Why a walk halts. -/
inductive Halt (ε : Type) where
  | fault (reason : ε)
  /-- What is asked for lies outside of the row. -/
  | outside

/-- A walk that may halt, and that may be left without having ended. -/
abbrev Walk (ε α : Type) : Type :=
  ExceptT (Halt ε) (StateT Cursor Option) α

namespace Walk

/-- The outcome of a walk from where a cursor stands, and the cursor in the end; nothing if the walk
has not ended. -/
def runFrom (walk : Walk ε α) (cursor : Cursor) : Option (Except (Halt ε) α × Cursor) :=
  walk.run.run cursor

/-- A walk that halts with a fault. -/
def halt (reason : ε) : Walk ε α :=
  throw (.fault reason)

/-- A walk that halts because what it needs is not there. -/
def outside : Walk ε α :=
  throw .outside

/-- The place of the cursor. -/
def here : Walk ε Nat :=
  return (← get).place

/-- What lies ahead of the cursor. -/
def ahead (row : List τ) : Walk ε (List τ) :=
  return row.drop (← here)

/-- The member at the cursor, if there is one. -/
def peek (row : List τ) : Walk ε (Option τ) :=
  return row[← here]?

/-- Moves the cursor on, whether or not the row goes on so far. -/
def move (n : Nat) : Walk ε Unit :=
  modify fun cursor => cursor.movedTo (cursor.place + n)

/-- The members from a place up to the cursor; both have to lie within the row, in this order. -/
def slice (row : List τ) (start : Nat) : Walk ε (List τ) := do
  let stop ← here
  if start ≤ stop ∧ stop ≤ row.length then return (row.drop start).take (stop - start) else outside

/-- A walk that has made all the calls it may make. -/
def unfinished : Walk ε α :=
  ExceptT.mk fun _ => none

/-- A walk that goes on by calling itself, once for each member of the row and once more. -/
def loop (row : List τ) (body : Walk ε α → Walk ε α) : Walk ε α :=
  Nat.repeat body (row.length + 1) unfinished

/-- Moves the cursor on as long as a member with the property stands there. -/
def passWhile (p : τ → Bool) (row : List τ) : Walk ε Unit :=
  loop row fun again => do
    if (← peek row).any p then
      move 1
      again

/-! ### Outcomes -/

variable {cursor : Cursor} {row : List τ}

@[simp] theorem runFrom_pure (a : α) : (pure a : Walk ε α).runFrom cursor = some (.ok a, cursor) :=
  rfl

@[simp] theorem runFrom_unfinished : (unfinished : Walk ε α).runFrom cursor = none :=
  rfl

@[simp] theorem runFrom_halt (reason : ε) :
    (halt reason : Walk ε α).runFrom cursor = some (.error (.fault reason), cursor) :=
  rfl

/-- A walk goes on from where its first part leaves the cursor. -/
theorem runFrom_bind_of_ok {walk : Walk ε α} {next : α → Walk ε β} {a : α} {after : Cursor}
    (h : walk.runFrom cursor = some (.ok a, after)) :
    (walk >>= next).runFrom cursor = (next a).runFrom after := by
  show (walk.runFrom cursor >>= fun found => ExceptT.bindCont next found.1 found.2) = _
  rw [h]
  rfl

theorem runFrom_bind_of_error {walk : Walk ε α} {next : α → Walk ε β} {why : Halt ε}
    {after : Cursor} (h : walk.runFrom cursor = some (.error why, after)) :
    (walk >>= next).runFrom cursor = some (.error why, after) := by
  show (walk.runFrom cursor >>= fun found => ExceptT.bindCont next found.1 found.2) = _
  rw [h]
  rfl

theorem runFrom_bind_of_none {walk : Walk ε α} {next : α → Walk ε β}
    (h : walk.runFrom cursor = none) : (walk >>= next).runFrom cursor = none := by
  show (walk.runFrom cursor >>= fun found => ExceptT.bindCont next found.1 found.2) = _
  rw [h]
  rfl

@[simp] theorem runFrom_here_bind (next : Nat → Walk ε β) :
    (here >>= next).runFrom cursor = (next cursor.place).runFrom cursor :=
  rfl

@[simp] theorem runFrom_ahead_bind (next : List τ → Walk ε β) :
    (ahead row >>= next).runFrom cursor = (next (row.drop cursor.place)).runFrom cursor :=
  rfl

@[simp] theorem runFrom_peek_bind (next : Option τ → Walk ε β) :
    (peek row >>= next).runFrom cursor = (next row[cursor.place]?).runFrom cursor :=
  rfl

@[simp] theorem runFrom_move_bind (n : Nat) (next : Unit → Walk ε β) :
    (move n >>= next).runFrom cursor =
      (next ()).runFrom (cursor.movedTo (cursor.place + n)) :=
  rfl

end Walk
end Gleaner
