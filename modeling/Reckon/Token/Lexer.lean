import Reckon.Number.Literal
import Reckon.Source
import Reckon.Text.Blank
import Reckon.Text.Numeral
import Reckon.Token

/-!
# Token — Lexer

The scanner, with one character of lookahead.  Layout is white space and comments, which run from
`#` to the end of the line.  Behind it stands a word, a run of digits and points, or a character
for itself, each taken as long as it goes.

Once the source has given no character the scanner asks it no more: every later item is the end of
the input (`Lexer.next_of_ended`).
-/

namespace Reckon

/-- The scanner's place in its source: the reply it looks at, followed by those it has not asked
for. -/
structure Lexer where
  rest : List Reply

namespace Lexer

/-- A scanner at the start of a source.  It looks at a blank, so nothing has been asked for yet. -/
def ofSource (source : Source) : Lexer := ⟨.char ' ' :: source⟩

/-- A scanner at the start of a text. -/
def ofText (text : String) : Lexer := ofSource (Source.ofText text)

/-- The reply is a character with the property. -/
def matching (p : Char → Bool) (r : Reply) : Bool := r.char?.any p

/-- The longest run of characters with the property, and what follows it. -/
def run (p : Char → Bool) (rs : List Reply) : List Char × List Reply :=
  ((rs.takeWhile (matching p)).filterMap Reply.char?, rs.dropWhile (matching p))

/-- The character ends a comment. -/
def endsLine (c : Char) : Bool := c == '\n' || c == '\r'

/-- What follows the layout; `comment` says whether the replies begin inside a comment. -/
def skipLayout (comment : Bool) : List Reply → List Reply
  | .char c :: rest =>
    if comment then skipLayout (!endsLine c) rest
    else if isBlank c then skipLayout false rest
    else if c == '#' then skipLayout true rest
    else .char c :: rest
  | rs => rs

/-- The item of a run of digits and points. -/
def numberItem (digits : List Char) : Item :=
  match literalValue? digits with
  | some value => .token (.number value)
  | none => .malformed (.invalidNumber (String.ofList digits))

/-- The item that begins right here, and what follows it. -/
def scan : List Reply → Item × List Reply
  | .char c :: rest =>
    if isLetter c then
      let (word, rest') := run isWordChar rest
      (.token (.ofWord (String.ofList (c :: word))), rest')
    else if isNumberChar c then
      let (digits, rest') := run isNumberChar rest
      (numberItem (c :: digits), rest')
    else (.token (.char c), rest)
  | rs => (.eof, rs)

/-- The next item, and the scanner behind it. -/
def next (l : Lexer) : Item × Lexer :=
  let (item, rest) := scan (skipLayout false l.rest)
  (item, ⟨rest⟩)

/-- The scanner looks at a failure to read. -/
def failure? (l : Lexer) : Option String :=
  match l.rest with
  | .broken reason :: _ => some reason
  | _ => none

/-- The scanner has been given no character and asks for no more. -/
def ended (l : Lexer) : Bool :=
  match l.rest with
  | .char _ :: _ => false
  | _ => true

/-- The scanner has asked for more than the source had. -/
def starved (l : Lexer) : Bool := l.rest.isEmpty

/-- The scanner when more has come in behind its source. -/
def feed (l : Lexer) (more : Source) : Lexer := ⟨l.rest ++ more⟩

/-! ## What a call takes away -/

theorem length_skipLayout_le (comment : Bool) (rs : List Reply) :
    (skipLayout comment rs).length ≤ rs.length := by
  induction rs generalizing comment with
  | nil => simp [skipLayout]
  | cons r rest ih =>
      cases r with
      | char c =>
          simp only [skipLayout]
          split
          · exact Nat.le_succ_of_le (ih _)
          · split
            · exact Nat.le_succ_of_le (ih _)
            · split
              · exact Nat.le_succ_of_le (ih _)
              · exact Nat.le_refl _
      | dry => simp [skipLayout]
      | broken reason => simp [skipLayout]

theorem length_run_le (p : Char → Bool) (rs : List Reply) :
    (run p rs).2.length ≤ rs.length :=
  (List.dropWhile_suffix _).length_le

theorem length_scan_le (rs : List Reply) : (scan rs).2.length ≤ rs.length := by
  match rs with
  | [] => simp [scan]
  | .dry :: _ => simp [scan]
  | .broken _ :: _ => simp [scan]
  | .char c :: rest =>
      simp only [scan]
      split
      · exact Nat.le_succ_of_le (length_run_le _ _)
      · split
        · exact Nat.le_succ_of_le (length_run_le _ _)
        · exact Nat.le_succ _

/-- An item that is not the end takes at least one character. -/
theorem length_scan_lt {rs : List Reply} (h : (scan rs).1 ≠ .eof) :
    (scan rs).2.length < rs.length := by
  match rs with
  | [] => exact absurd rfl h
  | .dry :: _ => exact absurd rfl h
  | .broken _ :: _ => exact absurd rfl h
  | .char c :: rest =>
      simp only [scan]
      split
      · exact Nat.lt_succ_of_le (length_run_le _ _)
      · split
        · exact Nat.lt_succ_of_le (length_run_le _ _)
        · exact Nat.lt_succ_self _

theorem length_next_le (l : Lexer) : l.next.2.rest.length ≤ l.rest.length :=
  Nat.le_trans (length_scan_le _) (length_skipLayout_le false l.rest)

theorem length_next_lt {l : Lexer} (h : l.next.1 ≠ .eof) :
    l.next.2.rest.length < l.rest.length :=
  Nat.lt_of_lt_of_le (length_scan_lt h) (length_skipLayout_le false l.rest)

/-- After the end there is only the end, and the source is asked no more. -/
theorem next_of_ended {l : Lexer} (h : l.ended = true) : l.next = (.eof, l) := by
  obtain ⟨rest⟩ := l
  match rest with
  | [] => rfl
  | .char _ :: _ => simp [ended] at h
  | .dry :: _ => rfl
  | .broken _ :: _ => rfl

end Lexer

end Reckon
