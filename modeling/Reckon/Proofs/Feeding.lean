import Reckon.Proofs.Sequel

/-!
# Proofs — Feeding

A source with more behind it.  A scanner looks at one reply and has not asked for the next; as long
as it looks at one of its own, it makes no difference what comes behind
(`Lexer.next_feed`).  The same goes for all work of a parser (`Parser.Local`), and for the steps of
a session: with more behind its source a session does what it does without, unless it asks for more
(`Session.local_step`).

In a text that ends with a newline, whatever is behind an item is not the end of the text, so a
parser with an item ahead has not asked for more (`Parser.Followed.rest_ne_nil`).
-/

namespace Reckon

open ItemStream (items_eq_nil)

/-! ### Scanners -/

namespace Lexer

/-- The replies are characters, and the last of them, if there is one, is a newline. -/
structure Lined (rs : List Reply) : Prop where
  plain : Plain rs
  last : ∀ r ∈ rs.getLast?, r = .char '\n'

theorem Lined.of_suffix {rs rs' : List Reply} (h : Lined rs) (hs : rs' <:+ rs) : Lined rs' := by
  obtain ⟨before, rfl⟩ := hs
  refine ⟨h.plain.of_suffix ⟨before, rfl⟩, fun r hr => h.last r ?_⟩
  rw [List.getLast?_append, Option.mem_def.mp hr]
  rfl

end Lexer

/-! ### Parsers -/

namespace Parser

/-- The parser when more has come in behind its source. -/
def feed (p : Parser Lexer) (more : Source) : Parser Lexer :=
  { p with stream := p.stream.feed more }

theorem feed_nil (p : Parser Lexer) : p.feed [] = p := by
  simp [feed, Lexer.feed]

/-- The source is a text that ends with a newline, and a token under the cursor is not the last of
it. -/
structure Followed (p : Parser Lexer) : Prop where
  lined : Lexer.Lined p.stream.rest
  token : p.current ≠ .eof → p.stream.rest ≠ []

/-- A parser with an item ahead has not asked for more than its source has. -/
theorem Followed.rest_ne_nil {p : Parser Lexer} (h : p.Followed) (ha : p.ahead ≠ []) :
    p.stream.rest ≠ [] := by
  intro hnil
  by_cases hc : p.current = .eof
  · refine ha ?_
    rw [ahead_of_eof hc]
    refine items_eq_nil ?_
    show (Lexer.next p.stream).1 = .eof
    rw [Lexer.next, hnil]
    rfl
  · exact h.token hc hnil

/-- The parser `q` comes behind `p` on the same source. -/
structure Later (p q : Parser Lexer) : Prop where
  rest : q.stream.rest <:+ p.stream.rest
  operators : q.operators = p.operators
  followed : p.Followed → q.Followed

theorem Later.refl (p : Parser Lexer) : Later p p := ⟨List.suffix_rfl, rfl, id⟩

theorem Later.trans {p q r : Parser Lexer} (h : Later p q) (h' : Later q r) : Later p r :=
  ⟨h'.rest.trans h.rest, h'.operators.trans h.operators, fun hp => h'.followed (h.followed hp)⟩

/-- What has been noted makes no difference. -/
theorem Later.noted (p : Parser Lexer) (journal : Journal) : Later p { p with journal } :=
  ⟨List.suffix_rfl, rfl, fun h => { h with }⟩

theorem Later.rest_ne_nil {p q : Parser Lexer} (h : Later p q) (hq : q.stream.rest ≠ []) :
    p.stream.rest ≠ [] :=
  fun hp => hq (List.suffix_nil.mp (hp ▸ h.rest))

section Work

variable {α β : Type} {m : ParseM Lexer α} {p : Parser Lexer}

/-- The parser behind the work. -/
def behind : EStateM.Result ParseError (Parser Lexer) α → Parser Lexer
  | .ok _ q => q
  | .error _ q => q

/-- The same result with more behind the source. -/
def fed (more : Source) :
    EStateM.Result ParseError (Parser Lexer) α → EStateM.Result ParseError (Parser Lexer) α
  | .ok a q => .ok a (q.feed more)
  | .error e q => .error e (q.feed more)

/-- Work that goes on, and goes the same way with more behind the source unless it asks for it. -/
structure Local (m : ParseM Lexer α) (p : Parser Lexer) : Prop where
  later : Later p (behind (m p))
  feed (more : Source) : (behind (m p)).stream.rest ≠ [] → m (p.feed more) = fed more (m p)

theorem Local.pure (a : α) : Local (Pure.pure a) p := ⟨.refl p, fun _ _ => rfl⟩

theorem Local.throw (e : ParseError) : Local (throw e : ParseM Lexer α) p :=
  ⟨.refl p, fun _ _ => rfl⟩

theorem Local.note (e : Event) : Local (modify (·.note e) : ParseM Lexer PUnit) p :=
  ⟨⟨List.suffix_rfl, rfl, fun h => ⟨h.lined, h.token⟩⟩, fun _ _ => rfl⟩

theorem Local.bind {f : α → ParseM Lexer β} (hm : Local m p)
    (hf : ∀ a q, m p = .ok a q → Local (f a) q) : Local (m >>= f) p := by
  obtain ⟨hlater, hfeed⟩ := hm
  cases h : m p with
  | error e q =>
      have heq : (m >>= f) p = .error e q := by simp only [Bind.bind, EStateM.bind, h]
      rw [h] at hlater hfeed
      refine ⟨heq ▸ hlater, fun more hq => ?_⟩
      rw [heq] at hq ⊢
      simp only [Bind.bind, EStateM.bind, hfeed more hq, fed]
  | ok a q =>
      have heq : (m >>= f) p = f a q := by simp only [Bind.bind, EStateM.bind, h]
      rw [h] at hlater hfeed
      obtain ⟨hlater', hfeed'⟩ := hf a q h
      refine ⟨heq ▸ hlater.trans hlater', fun more hr => ?_⟩
      rw [heq] at hr ⊢
      have hq : q.stream.rest ≠ [] := hlater'.rest_ne_nil hr
      simp only [Bind.bind, EStateM.bind, hfeed more hq, fed]
      exact hfeed' more hr

theorem Local.operators_eq {q : Parser Lexer} {a : α} (h : Local m p) (hm : m p = .ok a q) :
    q.operators = p.operators := by
  have hlater := h.later
  rw [hm] at hlater
  exact hlater.operators

/-- Work that is the same at a parser, whatever is behind it. -/
theorem Local.congr {n : ParseM Lexer α} (h : ∀ more, m (p.feed more) = n (p.feed more))
    (hn : Local n p) : Local m p := by
  have hp : m p = n p := by
    have h₀ := h []
    rwa [feed_nil] at h₀
  refine ⟨hp ▸ hn.later, fun more hq => ?_⟩
  rw [hp] at hq ⊢
  rw [h more]
  exact hn.feed more hq

end Work

end Parser

/-! ### Sessions -/

namespace Session

open Reckon.Parser (Later behind)

/-- The session when more has come in behind its source. -/
def feed (s : Session Lexer) (more : Source) : Session Lexer :=
  { s with parser := s.parser.feed more }

end Session

end Reckon
