import Reckon.Code.Execution
import Reckon.Generator
import Reckon.Parser.NextForm

/-!
# Session

A session takes forms from a parser and generates their code, one at a time.  A form that cannot be
parsed is left at the token that broke it, which is skipped; a form for which no code can be
generated is left as a whole.  Every turn passes at least one item
(`Session.remaining_step_lt`), so a session over a finite source ends.
-/

namespace Reckon

/-- Why a form is refused. -/
inductive SessionError where
  | parse (e : ParseError)
  | generate (e : GenError)
  deriving DecidableEq

/-- The wording of the error. -/
def SessionError.text : SessionError → String
  | .parse e => e.text
  | .generate e => e.text

/-- A form for which code has been generated. -/
structure Generated where
  kind : Form.Kind
  function : Handle
  deriving DecidableEq

/-- What comes of a form. -/
abbrev Outcome := Except SessionError Generated

/-- A parser and what has been generated from its forms. -/
structure Session (σ : Type) where
  parser : Parser σ
  generator : Generator := {}

namespace Session

variable {σ : Type} [ItemStream σ]

/-- The session with nothing noted. -/
def hush (s : Session σ) : Session σ := { s with parser := { s.parser with journal := #[] } }

/-- The module so far. -/
def module (s : Session σ) : Module := s.generator.builder.module

/-- Generate the code of a form that has been parsed. -/
def settle (form : Form) (p : Parser σ) (g : Generator) : Outcome × Session σ :=
  match Generator.generate form g with
  | .ok function g =>
    (.ok ⟨form.kind, function⟩, ⟨p.noteAll (Generator.notes form (.ok function)), g⟩)
  | .error e g => (.error (.generate e), ⟨p.noteAll (Generator.notes form (.error e)), g⟩)

/-- Take the next form; at the end of the input there is none.  The journal afterwards holds what
this step noted. -/
def step (s : Session σ) : Option Outcome × Session σ :=
  match s.hush.parser.toForm with
  | .error e p => (some (.error (.parse e)), { s with parser := p.recover e })
  | .ok .eof p => (none, { s with parser := p })
  | .ok t p =>
    match Parser.form t p with
    | .error e q => (some (.error (.parse e)), { s with parser := q.recover e })
    | .ok form q =>
      let (outcome, s) := settle form q s.generator
      (some outcome, s)

/-- What came of a form, and the session behind it. -/
structure Turn (σ : Type) where
  outcome : Outcome
  after : Session σ

/-! ## Progress -/

theorem remaining_settle (form : Form) (p : Parser σ) (g : Generator) :
    (settle form p g).2.parser.remaining = p.remaining := by
  unfold settle
  split <;> exact Parser.remaining_noteAll _ _

/-- Every form that is taken passes an item. -/
theorem remaining_step_lt {s s' : Session σ} {o : Outcome} (h : s.step = (some o, s')) :
    s'.parser.remaining < s.parser.remaining := by
  have h₁ := Parser.remaining_toForm s.hush.parser
  unfold step at h
  split at h
  · next e p ht =>
      rw [ht] at h₁
      obtain ⟨-, rfl⟩ := Prod.mk.inj h
      exact Nat.lt_of_le_of_lt (Parser.remaining_resume_le _) h₁
  · next p ht => simp at h
  · next t p hne ht =>
      rw [ht] at h₁
      obtain ⟨hle, rfl, hp⟩ := h₁
      have hc : p.current ≠ .eof := hne
      split at h
      · next e q hf =>
          obtain ⟨-, rfl⟩ := Prod.mk.inj h
          exact Nat.lt_of_lt_of_le (Parser.remaining_resume_form_lt hp hc hf) hle
      · next form q hf =>
          have hs : (settle form q s.generator).2 = s' := congrArg Prod.snd h
          have hq := remaining_settle form q s.generator
          rw [hs] at hq
          rw [hq]
          exact Nat.lt_of_lt_of_le (Parser.remaining_form_lt hp hc hf) hle

/-- Take forms to the end of the input: what came of each, and the session at the end. -/
def run (s : Session σ) : List (Turn σ) × Session σ :=
  match _h : s.step with
  | (none, s') => ([], s')
  | (some outcome, s') =>
    let (turns, last) := run s'
    (⟨outcome, s'⟩ :: turns, last)
termination_by s.parser.remaining
decreasing_by exact remaining_step_lt _h

end Session

end Reckon
