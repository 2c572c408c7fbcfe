/-
# The tokens of a text that is cut

A text that does not end in a slash is read into the same tokens whatever comes behind a slash after
it, unless it ends inside a literal: then it cannot be read without the mark that closes it. So what
stands before a slash is read on its own as it is read in the whole.

Key definitions: `slashTokens`.
Key theorems: `tokenize_cut`, `spells_slashes`, `not_isBracket_of_tokenize`.
-/
import Gleaner.Proofs.Query.Brackets
import Gleaner.Proofs.Query.Lexing
import Gleaner.Proofs.Query.Written
import Gleaner.Proofs.Selector.Cutting

namespace Gleaner.Query

open Gleaner.Text

variable {c : Char} {a rest : List Char}

theorem endsText_nil : EndsText [] := by
  rintro _ ⟨⟩

theorem endsText_slashes (n : Nat) (rest : List Char) :
    EndsText (Selector.slashes (n + 1) ++ rest) := by
  rintro _ ⟨⟩
  rfl

theorem EndsText.stopsText (hrest : EndsText rest) (h : a.getLast? ≠ some '/') :
    StopsText a rest :=
  ⟨fun c hc => by simp [stops, hrest c hc], fun hlast => absurd hlast h⟩

/-! ### Texts without brackets -/

/-- Only a bracket is read as one. -/
theorem Taken.isBracket {token : Token × Nat} (h : Taken c a token) :
    token.1.isBracket = true → c = '[' ∨ c = ']' := by
  obtain ⟨token, width⟩ := token
  obtain ⟨more, -, -, -, hspelled⟩ := h
  intro hbracket
  cases token <;> cases hbracket
  · exact .inl (List.cons.inj hspelled).1
  · exact .inr (List.cons.inj hspelled).1

/-- What is read from a text without brackets has none. -/
theorem not_isBracket_of_tokenize : ∀ {text : List Char} {tokens : List Token},
    tokenize text = .ok tokens → '[' ∉ text → ']' ∉ text → ∀ t ∈ tokens, t.isBracket = false
  | [], tokens, h, _, _ => by
    rw [tokenize] at h
    cases h
    exact List.forall_mem_nil _
  | c :: text, tokens, h, hopen, hclose => by
    rw [List.mem_cons, not_or] at hopen hclose
    rw [tokenize] at h
    split at h
    · exact not_isBracket_of_tokenize h hopen.2 hclose.2
    · split at h
      · cases h
      · next token width htoken =>
        obtain ⟨more, hmore, rfl⟩ := map_eq_ok_iff.1 h
        have hbracket := (ensures_tokenAt c text _ htoken).isBracket
        refine List.forall_mem_cons.2 ⟨?_, not_isBracket_of_tokenize hmore
          (fun hmem => hopen.2 (List.mem_of_mem_drop hmem))
          (fun hmem => hclose.2 (List.mem_of_mem_drop hmem))⟩
        rw [Bool.eq_false_iff]
        intro hone
        rcases hbracket hone with rfl | rfl
        · exact hopen.1 rfl
        · exact hclose.1 rfl
termination_by text => text.length

/-! ### All tokens -/

/-- The text is read into the same tokens at the end and before any slash. -/
def SpellsAlone (a : List Char) (tokens : List Token) : Prop :=
  ∀ rest, EndsText rest → Spells a tokens rest

/-- The text cannot be read, whatever without quotation marks stands behind a slash after it. -/
def StaysOpen (a : List Char) : Prop :=
  ∃ reason, ∀ rest, EndsText rest → '\'' ∉ rest → '"' ∉ rest →
    tokenize (a ++ rest) = .error reason

/-- **A text before a slash is read as it is read alone**, or it cannot be read before anything
without quotation marks. -/
theorem tokenize_cut (a : List Char) (h : a.getLast? ≠ some '/') :
    (∃ tokens, SpellsAlone a tokens) ∨ StaysOpen a := by
  rcases settled_or_refused a with ⟨tokens, htokens⟩ | ⟨reason, hreason⟩
  · exact .inl ⟨tokens, fun rest hends => htokens rest (hends.stopsText h)⟩
  · refine .inr ⟨reason, fun rest hends hsingle hdouble => ?_⟩
    exact hreason rest (hends.stopsText h) fun _ => ⟨hsingle, hdouble⟩

/-! ### Slashes -/

/-- A row of slashes is read two at a time. -/
def slashTokens : Nat → List Token
  | 0 => []
  | 1 => [.slash]
  | n + 2 => .doubleSlash :: slashTokens n

theorem spells_slashes (h : rest.head? ≠ some '/') :
    ∀ n, Spells (Selector.slashes n) (slashTokens n) rest
  | 0 => Spells.nil rest
  | 1 => spells_slash h
  | n + 2 => (spells_doubleSlash _).append (spells_slashes h n)

theorem slashTokens_succ : ∀ n, ∃ front last, slashTokens (n + 1) = front ++ [last] ∧
    last.isSlash = true ∧ ∀ t ∈ front, t.isBracket = false
  | 0 => ⟨[], .slash, rfl, rfl, List.forall_mem_nil _⟩
  | 1 => ⟨[], .doubleSlash, rfl, rfl, List.forall_mem_nil _⟩
  | n + 2 => by
    obtain ⟨front, last, hslashes, hlast, hfront⟩ := slashTokens_succ n
    refine ⟨.doubleSlash :: front, last, ?_, hlast, List.forall_mem_cons.2 ⟨rfl, hfront⟩⟩
    rw [slashTokens, hslashes, List.cons_append]

end Gleaner.Query
