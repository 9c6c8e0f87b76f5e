import Reckon.Journal
import Reckon.Token.Lexer

/-!
# Parser — Stream

What a parser takes its items from.  A scanner is one such stream, and so is a list of items; the
parser is the same for both, and what it does depends on the items alone.
-/

namespace Reckon

/-- What one request to a stream gives: an item, a failure to read met on the way, and the stream
behind the item. -/
structure Pull (σ : Type) where
  item : Item
  failure : Option String
  rest : σ

/-- A stream of items.  Every item but the end makes it smaller, so there are finitely many before
the end. -/
class ItemStream (σ : Type) where
  next : σ → Pull σ
  size : σ → Nat
  size_next_le (s : σ) : size (next s).rest ≤ size s
  size_next_lt (s : σ) : (next s).item ≠ .eof → size (next s).rest < size s

/-- What is noted about a request: the failure, and the token if there is one. -/
def Pull.note {σ : Type} (p : Pull σ) (journal : Journal) : Journal :=
  let journal := match p.failure with
    | some reason => journal.push (.readFailed reason)
    | none => journal
  match p.item with
  | .token t => journal.push (.lexed t)
  | .malformed _ => journal

namespace ItemStream

variable {σ : Type} [ItemStream σ]

/-- The items before the end. -/
def items (s : σ) : List Item :=
  if _h : (next s).item = .eof then [] else (next s).item :: items (next s).rest
termination_by size s
decreasing_by exact size_next_lt s _h

/-- The requests up to the one that gives the end. -/
def pulls (s : σ) : List (Pull σ) :=
  if _h : (next s).item = .eof then [next s] else next s :: pulls (next s).rest
termination_by size s
decreasing_by exact size_next_lt s _h

/-- Read on to the end of the input, which is the last token.  The first malformed lexeme puts an
end to it. -/
def readOn (read : Array Token) (s : σ) : EStateM LexError Journal (Array Token) := fun journal =>
  let pull := next s
  match _h : pull.item with
  | .malformed e => .error e (pull.note journal)
  | .token t =>
    if _ht : t = .eof then .ok (read.push t) (pull.note journal)
    else readOn (read.push t) pull.rest (pull.note journal)
termination_by size s
decreasing_by exact size_next_lt s fun h => _ht (Item.token.inj (_h.symm.trans h))

end ItemStream

/-- A failure to read is met when the scanner comes to it, not when it already stands there. -/
def Lexer.pull (l : Lexer) : Pull Lexer :=
  let (item, rest) := l.next
  { item, failure := if l.ended then none else rest.failure?, rest }

instance : ItemStream Lexer where
  next := Lexer.pull
  size l := l.rest.length
  size_next_le := Lexer.length_next_le
  size_next_lt _ h := Lexer.length_next_lt h

/-- The tokens of a whole text. -/
def Lexer.readAll (text : String) : EStateM LexError Journal (Array Token) :=
  ItemStream.readOn #[] (ofText text)

/-- A list of items ends with the end of the input. -/
def Pull.ofList : List Item → Pull (List Item)
  | [] => ⟨.eof, none, []⟩
  | item :: rest => ⟨item, none, rest⟩

instance : ItemStream (List Item) where
  next := Pull.ofList
  size := List.length
  size_next_le items := by cases items <;> simp [Pull.ofList]
  size_next_lt items h := by
    cases items with
    | nil => exact absurd rfl h
    | cons item rest => simp [Pull.ofList]

end Reckon
