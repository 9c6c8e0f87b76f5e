import Reckon.Parser.Operators
import Reckon.Parser.Stream

/-!
# Parser — Cursor

A parser has one token of lookahead, which it reads when it is first asked for.  `Parser.remaining`
bounds the items the cursor has not passed: reading on never makes it greater
(`Parser.remaining_advance_le`), and passing a token makes it less
(`Parser.remaining_advance_lt`).
-/

namespace Reckon

/-- A parser: its items, the token under the cursor, whether that token has been read, the table of
operators, and what has been noted. -/
structure Parser (σ : Type) where
  stream : σ
  current : Token := .eof
  primed : Bool := false
  operators : Operators := .standard
  journal : Journal := #[]

/-- A parser at work; what it has passed stays passed when it fails. -/
abbrev ParseM (σ : Type) := EStateM ParseError (Parser σ)

namespace Parser

variable {σ : Type} [ItemStream σ]

/-- A parser of a text. -/
def ofText (text : String) : Parser Lexer := { stream := Lexer.ofText text }

/-- An upper bound of the number of items not yet passed. -/
def remaining (p : Parser σ) : Nat :=
  ItemStream.size p.stream + if p.current = .eof then 0 else 1

/-- One more event. -/
def note (p : Parser σ) (e : Event) : Parser σ := { p with journal := p.journal.push e }

/-- Several more events. -/
def noteAll (p : Parser σ) (es : List Event) : Parser σ := es.foldl note p

/-- Move the cursor by one item.  A malformed lexeme is passed too, and leaves the end of the input
under the cursor. -/
def advance : ParseM σ Unit := fun p =>
  let pull := ItemStream.next p.stream
  let journal := pull.note p.journal
  match pull.item with
  | .token t => .ok () { p with stream := pull.rest, current := t, primed := true, journal }
  | .malformed e =>
    .error (.lex e) { p with stream := pull.rest, current := .eof, primed := true, journal }

/-- Move the cursor and give the token that is then under it. -/
def next : ParseM σ Token := do
  advance
  return (← get).current

/-- The token under the cursor, read if it has not been. -/
def peek : ParseM σ Token := do
  let p ← get
  if p.primed then return p.current else next

/-- The token under the cursor, which moves on. -/
def take : ParseM σ Token := do
  let t ← peek
  advance
  return t

/-! ## Progress -/

theorem remaining_noteAll (p : Parser σ) (es : List Event) :
    (p.noteAll es).remaining = p.remaining := by
  induction es generalizing p with
  | nil => rfl
  | cons e es ih => exact ih (p.note e)

/-- Reading on is no step back, and passing a malformed lexeme is a step on. -/
theorem remaining_advance_le (p : Parser σ) :
    match advance p with
    | .ok _ q => q.remaining ≤ p.remaining
    | .error _ q => q.remaining < p.remaining := by
  have hle := ItemStream.size_next_le p.stream
  have hlt := ItemStream.size_next_lt p.stream
  cases h : (ItemStream.next p.stream).item with
  | token t =>
      by_cases ht : t = .eof
      · simp [advance, h, remaining, ht]; omega
      · have := hlt (by simp [h, Item.eof, ht])
        simp [advance, h, remaining, ht]; omega
  | malformed e =>
      have := hlt (by simp [h, Item.eof])
      simp [advance, h, remaining]; omega

/-- Passing a token is a step on. -/
theorem remaining_advance_lt {p : Parser σ} (hp : p.current ≠ .eof) :
    match advance p with
    | .ok _ q => q.remaining < p.remaining
    | .error _ q => q.remaining < p.remaining := by
  have hle := ItemStream.size_next_le p.stream
  have hlt := ItemStream.size_next_lt p.stream
  cases h : (ItemStream.next p.stream).item with
  | token t =>
      by_cases ht : t = .eof
      · simp [advance, h, remaining, ht, hp]; omega
      · have := hlt (by simp [h, Item.eof, ht])
        simp [advance, h, remaining, ht, hp]; omega
  | malformed e =>
      have := hlt (by simp [h, Item.eof])
      simp [advance, h, remaining, hp]; omega

/-- What a move that succeeds does. -/
theorem advance_eq_ok {p q : Parser σ} (h : advance p = .ok () q) :
    ∃ t, (ItemStream.next p.stream).item = .token t ∧ q =
      { p with
        stream := (ItemStream.next p.stream).rest, current := t, primed := true
        journal := (ItemStream.next p.stream).note p.journal } := by
  cases hi : (ItemStream.next p.stream).item with
  | token t =>
      simp only [advance, hi] at h
      cases h
      exact ⟨t, rfl, rfl⟩
  | malformed e =>
      simp only [advance, hi] at h
      cases h

/-- What a move that fails does. -/
theorem advance_eq_error {p q : Parser σ} {e : ParseError} (h : advance p = .error e q) :
    ∃ x, (ItemStream.next p.stream).item = .malformed x ∧ e = .lex x ∧ q =
      { p with
        stream := (ItemStream.next p.stream).rest, current := .eof, primed := true
        journal := (ItemStream.next p.stream).note p.journal } := by
  cases hi : (ItemStream.next p.stream).item with
  | token t =>
      simp only [advance, hi] at h
      cases h
  | malformed x =>
      simp only [advance, hi] at h
      cases h
      exact ⟨x, rfl, rfl, rfl⟩

/-- A token read is taken from the stream. -/
theorem size_advance_lt {p q : Parser σ} (h : advance p = .ok () q) (hq : q.current ≠ .eof) :
    ItemStream.size q.stream < ItemStream.size p.stream := by
  obtain ⟨t, hi, rfl⟩ := advance_eq_ok h
  refine ItemStream.size_next_lt p.stream ?_
  rw [hi]
  exact fun e => hq (Item.token.inj e)

/-- A malformed lexeme is taken from the stream. -/
theorem size_advance_error_lt {p q : Parser σ} {e : ParseError} (h : advance p = .error e q) :
    ItemStream.size q.stream < ItemStream.size p.stream := by
  obtain ⟨x, hi, -, rfl⟩ := advance_eq_error h
  exact ItemStream.size_next_lt p.stream (by simp [hi])

end Parser

end Reckon
