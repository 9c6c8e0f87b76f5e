import Mathlib.Control.Monad.Basic
import Reckon.Proofs.Closing
import Reckon.Proofs.Ending
import Reckon.Proofs.Items

/-!
# Proofs — Sequel

What a session reports of a text with another text behind it.  Two sessions, one over the first text
and one over both, are followed step by step (`Session.paired_step`) and run by run.  Where the
second text begins with a token that no complete form goes on with, what it reports comes behind
what the first reports (`Session.trace_append`).  Where it begins with a malformed lexeme, that
lexeme is met by the search for the end of the first text's last form, which it brings down
(`Session.trace_cut`).

* `Session.run_semicolon`: sessions compose at a semicolon.
* `Session.run_before_number`: when a number leaves the forms before it alone, and what becomes of
  them when it does not.
-/

namespace Reckon

open ItemStream (Final items)

theorem Operators.ends_number (ops : Operators) (v : Float) : ops.Ends (.number v) :=
  ⟨rfl, by simp, by simp⟩

theorem Operators.ends_char {ops : Operators} {c : Char} (h : ops c = none) (hc : c ≠ '(') :
    ops.Ends (.char c) :=
  ⟨by simp [find?, h], by simp [hc], by simp⟩

namespace Session

open Reckon.Parser (Abreast Alongside Beyond Arrives AtEnd Sim)

/-! ### What a run reports -/

section Trace

variable {σ : Type} [ItemStream σ] {s s' : Session σ} {o : Outcome}

/-- What came of each form, and the generator behind it. -/
def trace (s : Session σ) : List (Outcome × Generator) :=
  s.run.1.map fun turn => (turn.outcome, turn.after.generator)

/-- The form could not be parsed. -/
def unparsed : Outcome → Bool
  | .error (.parse _) => true
  | _ => false

/-- Every form of the session can be parsed. -/
def Parses (s : Session σ) : Prop := ∀ turn ∈ s.trace, unparsed turn.1 = false

instance (s : Session σ) : Decidable s.Parses :=
  inferInstanceAs (Decidable (∀ turn ∈ s.trace, unparsed turn.1 = false))

theorem run_of_none (h : s.step = (none, s')) : s.run = ([], s') := by
  rw [run]
  split
  · next h' => cases h.symm.trans h'; rfl
  · next h' => cases h.symm.trans h'

theorem run_of_some (h : s.step = (some o, s')) :
    s.run = (⟨o, s'⟩ :: s'.run.1, s'.run.2) := by
  rw [run]
  split
  · next h' => cases h.symm.trans h'
  · next h' => cases h.symm.trans h'; rfl

theorem trace_of_none (h : s.step = (none, s')) : s.trace = [] := by
  rw [trace, run_of_none h, List.map_nil]

theorem trace_of_some (h : s.step = (some o, s')) :
    s.trace = (o, s'.generator) :: s'.trace := by
  rw [trace, run_of_some h, List.map_cons, trace]

theorem Parses.of_some (hs : s.Parses) (h : s.step = (some o, s')) :
    unparsed o = false ∧ s'.Parses := by
  rw [Parses, trace_of_some h, List.forall_mem_cons] at hs
  exact hs

/-- Sessions whose next step is the same have the same runs. -/
theorem run_congr (h : s.step = s'.step) : s.run = s'.run := by
  match hs : s.step with
  | (none, t) => rw [run_of_none hs, run_of_none (h.symm.trans hs)]
  | (some o, t) => rw [run_of_some hs, run_of_some (h.symm.trans hs)]

/-- What a step makes of the parsing of a form. -/
def finish (g : Generator) : EStateM.Result ParseError (Parser σ) Form → Option Outcome × Session σ
  | .error e p => (some (.error (.parse e)), ⟨p.recover e, g⟩)
  | .ok form p => (some (settle form p g).1, (settle form p g).2)

/-- What a step makes of the way to the next form. -/
def conclude (g : Generator) :
    EStateM.Result ParseError (Parser σ) Token → Option Outcome × Session σ
  | .error e p => (some (.error (.parse e)), ⟨p.recover e, g⟩)
  | .ok .eof p => (none, ⟨p, g⟩)
  | .ok t p => finish g (Parser.form t p)

theorem step_eq (s : Session σ) : s.step = conclude s.generator s.hush.parser.toForm := rfl

theorem conclude_of_ne {t : Token} (ht : t ≠ .eof) (g : Generator) (p : Parser σ) :
    conclude g (.ok t p) = finish g (Parser.form t p) := by
  cases t with
  | eof => exact absurd rfl ht
  | _ => rfl

end Trace

/-! ### Two sessions -/

section Relations

variable {σ τ : Type} [ItemStream σ] [ItemStream τ]

/-- The parsers are abreast, and the generators are the same. -/
structure Alike (tail : Tail) (s : Session σ) (s' : Session τ) : Prop where
  parser : Abreast tail s.parser s'.parser
  generator : s'.generator = s.generator

/-- What a step makes of two sessions that were alike and had the generator `g`. -/
inductive Paired (g : Generator) (tail : Tail) :
    Option Outcome × Session σ → Option Outcome × Session τ → Prop where
  /-- the same comes of the form, and the sessions are alike again -/
  | went {o : Outcome} {s : Session σ} {s' : Session τ} (h : Alike tail s s') :
      Paired g tail (some o, s) (some o, s')
  /-- the same comes of the form, which is the last one of the first session -/
  | beyond {o : Outcome} {s : Session σ} {s' : Session τ}
      (h : Beyond tail s.parser s'.parser) (hg : s'.generator = s.generator) :
      Paired g tail (some o, s) (some o, s')
  /-- the first session ends, with a form or without, and the second meets a malformed lexeme -/
  | cut {o : Option Outcome} {s : Session σ} {s' : Session τ} {x : LexError} {rest : List Item}
      (hs : s.parser.AtEnd) (ht : tail.items = .malformed x :: rest) (hg : s'.generator = g) :
      Paired g tail (o, s) (some (.error (.parse (.lex x))), s')
  /-- both end -/
  | done {s : Session σ} {s' : Session τ} (ht : tail.items = []) (hg : s'.generator = s.generator) :
      Paired g tail (none, s) (none, s')
  /-- the first ends, and the second goes on with the tail -/
  | ended {p : Parser σ} {q : Parser τ} (h : Beyond tail p q) :
      Paired g tail (none, ⟨p, g⟩) (conclude g q.toForm)
  /-- the form cannot be parsed; only without a tail are the sessions alike after that -/
  | failed {e : ParseError} {s : Session σ} {r : Option Outcome × Session τ}
      (ht : tail.items ≠ []) :
      Paired g tail (some (.error (.parse e)), s) r

omit [ItemStream σ] in
theorem noteAll_eq (p : Parser σ) (es : List Event) :
    ∃ journal, p.noteAll es = { p with journal } := by
  induction es generalizing p with
  | nil => exact ⟨p.journal, rfl⟩
  | cons e es ih => exact ih (p.note e)

omit [ItemStream σ] in
theorem parser_settle (f : Form) (p : Parser σ) (g : Generator) :
    ∃ journal, (settle f p g).2.parser = { p with journal } := by
  rw [settle]
  cases Generator.generate f g with
  | ok function g => exact noteAll_eq _ _
  | error e g => exact noteAll_eq _ _

omit [ItemStream σ] [ItemStream τ] in
/-- What comes of a form that has been parsed does not depend on the parser. -/
theorem settle_congr (f : Form) (p : Parser σ) (q : Parser τ) (g : Generator) :
    (settle f q g).1 = (settle f p g).1 ∧
      (settle f q g).2.generator = (settle f p g).2.generator := by
  rw [settle, settle]
  cases Generator.generate f g with
  | ok function g => exact ⟨rfl, rfl⟩
  | error e g => exact ⟨rfl, rfl⟩

variable [Final σ] [Final τ] {tail : Tail} {g : Generator}

theorem paired_recover {p : Parser σ} {q : Parser τ} (h : Alongside tail p q) (e : ParseError) :
    Paired g tail (some (.error (.parse e)), ⟨p.recover e, g⟩)
      (some (.error (.parse e)), ⟨q.recover e, g⟩) := by
  by_cases ht : tail.items = []
  · exact .went ⟨Parser.abreast_resume ht { h with }, rfl⟩
  · exact .failed ht

theorem paired_finish {r : EStateM.Result ParseError (Parser σ) Form}
    {r' : EStateM.Result ParseError (Parser τ) Form} (h : Sim tail r r') :
    Paired g tail (finish g r) (finish g r') := by
  cases h with
  | @abreast f p q h =>
      obtain ⟨ho, hg⟩ := settle_congr f p q g
      obtain ⟨j, hp⟩ := parser_settle f p g
      obtain ⟨j', hq⟩ := parser_settle f q g
      simp only [finish, ho]
      refine .went ⟨?_, hg⟩
      rw [hp, hq]
      exact { h with }
  | @beyond f p q h =>
      obtain ⟨ho, hg⟩ := settle_congr f p q g
      obtain ⟨j, hp⟩ := parser_settle f p g
      obtain ⟨j', hq⟩ := parser_settle f q g
      simp only [finish, ho]
      refine .beyond ?_ hg
      rw [hp, hq]
      exact { h with atEnd := { h.atEnd with } }
  | @cut f p q x hend ht =>
      obtain ⟨j, hp⟩ := parser_settle f p g
      refine .cut ?_ ht rfl
      rw [hp]
      exact { hend with }
  | fail h => exact paired_recover h _
  | spent hend ht => exact .failed ht

theorem paired_conclude {r : EStateM.Result ParseError (Parser σ) Token}
    {r' : EStateM.Result ParseError (Parser τ) Token} (h : Arrives tail r r') :
    Paired g tail (conclude g r) (conclude g r') := by
  cases h with
  | @abreast p q h =>
      by_cases hc : p.current = .eof
      · rw [hc]
        exact .done (h.ended hc).2 rfl
      · rw [conclude_of_ne hc, conclude_of_ne hc]
        exact paired_finish (Parser.sim_form p.current h)
  | beyond h => exact .ended h
  | cut hend ht => exact .cut hend ht rfl
  | fail h => exact paired_recover h _
  | spent hend ht => exact .failed ht

/-- **One step of both.** -/
theorem paired_step {s : Session σ} {s' : Session τ} (h : Alike tail s s') :
    Paired s.generator tail s.step s'.step := by
  rw [step_eq, step_eq, h.generator]
  exact paired_conclude (Parser.arrives_toForm { h.parser with })

/-! ### Run by run -/

/-- Sessions that are alike report the same. -/
theorem trace_eq {s : Session σ} {s' : Session τ} (hnil : tail.items = [])
    (h : Paired s.generator tail s.step s'.step) :
    s'.trace = s.trace ∧ s'.run.2.generator = s.run.2.generator := by
  fun_induction run s generalizing s' with
  | case1 s s₁ hs =>
      rw [trace_of_none hs]
      rw [hs] at h
      generalize hs' : s'.step = r at h
      cases h with
      | cut hend ht hg => cases hnil.symm.trans ht
      | done ht hg => exact ⟨trace_of_none hs', by rw [run_of_none hs']; exact hg⟩
      | ended h => exact absurd hnil h.items_ne_nil
  | case2 s o s₁ hs turns last hr ih =>
      rw [trace_of_some hs]
      rw [hs] at h
      rw [hr] at ih
      generalize hs' : s'.step = r at h
      cases h with
      | went h =>
          obtain ⟨htrace, hg⟩ := ih (paired_step h)
          rw [trace_of_some hs', run_of_some hs', htrace, h.generator]
          exact ⟨rfl, hg⟩
      | beyond h hg => exact absurd hnil h.items_ne_nil
      | cut hend ht hg => cases hnil.symm.trans ht
      | failed ht => exact absurd hnil ht

omit [Final σ] [Final τ] in
/-- At the end of the input a run reports nothing. -/
theorem run_of_atEnd {s : Session σ} (hs : s.parser.AtEnd) :
    s.trace = [] ∧ s.run.2.generator = s.generator := by
  have hend : s.hush.parser.AtEnd := { hs with }
  have hstep : s.step = (none, ⟨s.hush.parser, s.generator⟩) := by
    rw [step_eq, hend.toForm_eq]
    rfl
  rw [run_of_none hstep]
  exact ⟨trace_of_none hstep, rfl⟩

/-- **Behind a run that parses, another begins.**  Where the tail begins with a token, the second
session reports what the first one does, and then what one reports that begins at that token with
the generator the first one leaves. -/
theorem trace_append {s : Session σ} {s' : Session τ} {t : Token} {rest : List Item}
    (htail : tail.items = .token t :: rest) (h : Alike tail s s') (hs : s.Parses) :
    ∃ (p : Parser σ) (r : Session τ), Beyond tail p r.parser ∧
      r.generator = s.run.2.generator ∧ s'.trace = s.trace ++ r.trace ∧
      s'.run.2.generator = r.run.2.generator := by
  have hpair := paired_step h
  fun_induction run s generalizing s' with
  | case1 s s₁ hstep =>
      rw [trace_of_none hstep]
      rw [hstep] at hpair
      generalize hstep' : s'.step = r at hpair
      cases hpair with
      | cut hend ht hg => cases htail.symm.trans ht
      | done ht hg => cases htail.symm.trans ht
      | @ended p q hb =>
          let r : Session τ := ⟨q, s.generator⟩
          have hself : Abreast (.nil q.operators) r.hush.parser q :=
            { operators := rfl, operators' := rfl, items := (List.append_nil _).symm, current := rfl
              primed := hb.primed', primed' := hb.primed', ended := fun he => absurd he hb.ne_eof }
          have hr : Paired r.generator (.nil q.operators) r.step s'.step := by
            rw [hstep', step_eq]
            exact paired_conclude (Parser.arrives_toForm hself)
          obtain ⟨htrace, hlast⟩ := trace_eq rfl hr
          exact ⟨p, r, hb, rfl, htrace, hlast⟩
  | case2 s o s₁ hstep turns last hr ih =>
      obtain ⟨ho, hs₁⟩ := hs.of_some hstep
      rw [trace_of_some hstep]
      rw [hstep] at hpair
      rw [hr] at ih
      generalize hstep' : s'.step = r at hpair
      cases hpair with
      | @went o s₁ s₁' h₁ =>
          obtain ⟨p, r, hb, hg, htrace, hlast⟩ := ih h₁ hs₁ (paired_step h₁)
          rw [trace_of_some hstep', run_of_some hstep', h₁.generator, htrace]
          exact ⟨p, r, hb, hg, rfl, hlast⟩
      | @beyond o s₁ s₁' hb hg =>
          obtain ⟨hnil, hlast⟩ := run_of_atEnd hb.atEnd
          rw [trace_of_some hstep', run_of_some hstep', hnil, hg]
          rw [hr] at hlast
          exact ⟨s₁.parser, s₁', hb, hg.trans hlast.symm, rfl, rfl⟩
      | cut hend ht hg => cases htail.symm.trans ht
      | failed ht => cases ho

omit [Final σ] [Final τ] in
theorem ready_of_alike {s : Session σ} {s' : Session τ} (h : Alike tail s s') : s.parser.Ready where
  ended _ hc := (h.parser.ended hc).1
  unread hp := absurd (h.parser.primed.symm.trans hp) nofun

/-- A form that is parsed ends with a token that is no semicolon. -/
theorem closes_step {s s' : Session σ} {o : Outcome} (hs : s.parser.Ready)
    (h : s.step = (some o, s')) (ho : unparsed o = false) :
    ∃ t, .token t :: s'.parser.ahead <:+ s.parser.ahead ∧ t ≠ .char ';' := by
  have hto := Parser.ahead_toForm (p := s.hush.parser) ⟨hs.ended, hs.unread⟩
  rw [step_eq] at h
  match hp : s.hush.parser.toForm with
  | .error e p =>
      rw [hp] at h
      cases h
      cases ho
  | .ok t p =>
      rw [hp] at h hto
      by_cases ht : t = .eof
      · rw [ht] at h
        cases h
      · rw [conclude_of_ne ht] at h
        match hf : Parser.form t p with
        | .error e q =>
            rw [hf] at h
            cases h
            cases ho
        | .ok f q =>
            rw [hf] at h
            cases h
            obtain ⟨⟨k, hk⟩, -⟩ := hto
            obtain ⟨t', hsuf, ht'⟩ := Parser.closes_form t p f q hf
            have hp : p.ahead <:+ s.parser.ahead := ⟨_, hk.symm⟩
            rw [(still_settle f q s.generator).ahead_eq]
            exact ⟨t', hsuf.trans hp, ht'⟩

omit [Final τ] in
theorem trace_ne_nil {s : Session σ} {item : Item} (hs : s.parser.Ready)
    (hi : s.parser.ahead.getLast? = some item) (hsemi : ¬ Semicolon item) : s.trace ≠ [] := by
  match hstep : s.step with
  | (some o, s₁) => rw [trace_of_some hstep]; exact List.cons_ne_nil _ _
  | (none, s₁) =>
      have hall := (step_eq_none_iff hs).1 (by rw [hstep])
      exact absurd (hall item (List.mem_of_getLast? hi)) hsemi

theorem getLast?_of_suffix {α : Type} {l l' : List α} (h : l <:+ l') (hl : l ≠ []) :
    l'.getLast? = l.getLast? := by
  obtain ⟨init, rfl⟩ := h
  rw [List.getLast?_append, List.getLast?_eq_some_getLast hl, Option.some_or]

/-- The turns of `s` that stand when a malformed lexeme follows its last item. -/
def kept (s : Session σ) : List (Outcome × Generator) :=
  if s.parser.ahead.getLast? = some (.token (.char ';')) then s.trace else s.trace.dropLast

/-- **A malformed lexeme behind a run that parses.**  Where the tail begins with one, the second
session reports what the first one does and then the lexeme, if a semicolon is the last item of the
first; otherwise the lexeme is reported in place of the last form of the first. -/
theorem trace_cut {s : Session σ} {s' : Session τ} {x : LexError} {rest : List Item}
    (htail : tail.items = .malformed x :: rest) (h : Alike tail s s') (hs : s.Parses) :
    ∃ more, s'.trace = s.kept ++
      (.error (.parse (.lex x)), (s.kept.map Prod.snd).getLastD s.generator) :: more := by
  have hpair := paired_step h
  have hready := ready_of_alike h
  have hcur : s.parser.current ≠ .eof := fun hc => by
    cases htail.symm.trans (h.parser.ended hc).2
  fun_induction run s generalizing s' with
  | case1 s s₁ hstep =>
      have hkept : s.kept = [] := by simp [kept, trace_of_none hstep]
      rw [hstep] at hpair
      generalize hstep' : s'.step = r at hpair
      cases hpair with
      | @cut _ _ s₁' _ _ hend ht hg =>
          cases htail.symm.trans ht
          rw [hkept, trace_of_some hstep', hg]
          exact ⟨s₁'.trace, rfl⟩
      | done ht hg => cases htail.symm.trans ht
      | ended hb => cases htail.symm.trans hb.items
  | case2 s o s₁ hstep turns last hr ih =>
      obtain ⟨ho, hs₁⟩ := hs.of_some hstep
      obtain ⟨t, hsuf, ht'⟩ := closes_step hready hstep ho
      rw [hstep] at hpair
      generalize hstep' : s'.step = r at hpair
      cases hpair with
      | @went o s₁ s₁' h₁ =>
          have hready₁ := ready_of_alike h₁
          have hcur₁ : s₁.parser.current ≠ .eof := fun hc => by
            cases htail.symm.trans (h₁.parser.ended hc).2
          obtain ⟨more, hmore⟩ := ih h₁ hs₁ (paired_step h₁) hready₁ hcur₁
          have hne : s₁.parser.ahead ≠ [] := by
            rw [Parser.ahead_of_ne hcur₁]
            exact List.cons_ne_nil _ _
          have hlast : s.parser.ahead.getLast? = s₁.parser.ahead.getLast? :=
            getLast?_of_suffix ((List.suffix_cons _ _).trans hsuf) hne
          have hitem := List.getLast?_eq_some_getLast hne
          have hkept : s.kept = (o, s₁.generator) :: s₁.kept := by
            rw [kept, kept, hlast, trace_of_some hstep]
            split
            · rfl
            · next hsemi =>
                refine List.dropLast_cons_of_ne_nil (trace_ne_nil hready₁ hitem fun h => ?_)
                exact hsemi (hitem.trans (congrArg some h))
          rw [hkept, trace_of_some hstep', h₁.generator, hmore, List.map_cons, List.getLastD_cons]
          exact ⟨more, rfl⟩
      | beyond hb hg => cases htail.symm.trans hb.items
      | @cut _ _ s₁' _ _ hend ht hg =>
          cases htail.symm.trans ht
          have hlast : s.parser.ahead.getLast? = some (.token t) := by
            rw [getLast?_of_suffix hsuf (List.cons_ne_nil _ _), hend.ahead_eq]
            rfl
          have hkept : s.kept = [] := by
            rw [kept, hlast, if_neg (by simpa using ht'), trace_of_some hstep,
              (run_of_atEnd hend).1]
            rfl
          rw [hkept, trace_of_some hstep', hg]
          exact ⟨s₁'.trace, rfl⟩
      | failed ht => cases ho

end Relations

/-! ### Texts -/

section Texts

/-- A session over a text, with its table of operators and what has been generated before. -/
def ofText (ops : Operators) (g : Generator) (text : String) : Session Lexer :=
  ⟨{ Parser.ofText text with operators := ops }, g⟩

/-- A session over a text, as if it stood on a semicolon before it. -/
def atSemicolon (ops : Operators) (g : Generator) (text : String) : Session Lexer :=
  ⟨{ Parser.ofText text with operators := ops, current := .char ';', primed := true }, g⟩

/-- A session that has read nothing does what it would do behind a semicolon. -/
theorem run_atSemicolon (ops : Operators) (g : Generator) (text : String) :
    (atSemicolon ops g text).run = (ofText ops g text).run := by
  refine run_congr ?_
  rw [step_eq, step_eq]
  refine congrArg (conclude g) (Eq.symm ?_)
  exact Parser.toForm_of_not_primed (p := (ofText ops g text).hush.parser) rfl

theorem trace_atSemicolon (ops : Operators) (g : Generator) (text : String) :
    (atSemicolon ops g text).trace = (ofText ops g text).trace := by
  rw [trace, trace, run_atSemicolon]

theorem parses_atSemicolon {ops : Operators} {g : Generator} {text : String} :
    (atSemicolon ops g text).Parses ↔ (ofText ops g text).Parses := by
  rw [Parses, Parses, trace_atSemicolon]

theorem ready_atSemicolon (ops : Operators) (g : Generator) (text : String) :
    (atSemicolon ops g text).parser.Ready :=
  ⟨nofun, nofun⟩

theorem alike_newline (tail : Tail) {g : Generator} {a b : String}
    (h : tail.items = items (Lexer.ofText b)) :
    Alike tail (atSemicolon tail.operators g a)
      (atSemicolon tail.operators g (a ++ "\n" ++ b)) where
  parser :=
    { operators := rfl, operators' := rfl, items := by rw [h]; exact Lexer.items_newline a b
      current := rfl, primed := rfl, primed' := rfl, ended := nofun }
  generator := rfl

/-- **Sessions compose at a semicolon** that is no operator. -/
theorem run_semicolon {ops : Operators} (hops : ops ';' = none) (g : Generator) (a b : String)
    (ha : (ofText ops g a).Parses) :
    let first := ofText ops g a
    let second := ofText ops first.run.2.generator b
    let whole := ofText ops g (a ++ "\n;" ++ b)
    whole.trace = first.trace ++ second.trace ∧
      whole.run.2.generator = second.run.2.generator := by
  intro first second whole
  have hitems := Lexer.items_semicolon b
  let tail : Tail := ⟨ops, items (Lexer.ofText (";" ++ b)), by
    rw [hitems]
    rintro t rest h
    cases h
    exact ops.ends_char hops (by decide)⟩
  have htext : a ++ "\n;" ++ b = a ++ "\n" ++ (";" ++ b) := by
    rw [show "\n;" = "\n" ++ ";" from rfl]
    simp only [String.append_assoc]
  rw [← parses_atSemicolon] at ha
  obtain ⟨p, r, hbeyond, hg, htrace, hlast⟩ :=
    trace_append hitems (alike_newline tail rfl) ha
  obtain ⟨hcur, hrest⟩ := List.cons.inj (hitems.symm.trans hbeyond.items)
  -- the session behind the semicolon is as good as one that has read nothing
  have hsecond : Alike (.nil ops) (atSemicolon ops r.generator b) r :=
    ⟨{ operators := rfl, operators' := hbeyond.operators', current := (Item.token.inj hcur).symm
       items := hrest.symm.trans (List.append_nil _).symm, primed := rfl
       primed' := hbeyond.primed', ended := nofun }, rfl⟩
  obtain ⟨htrace', hlast'⟩ := trace_eq rfl (paired_step hsecond)
  rw [run_atSemicolon] at hg hlast hlast'
  rw [trace_atSemicolon] at htrace'
  rw [trace_atSemicolon, trace_atSemicolon, htrace', hg, ← htext] at htrace
  rw [hlast', hg, ← htext] at hlast
  exact ⟨htrace, hlast⟩

/-- A definition before the semicolon; behind it a malformed number, and a definition that calls the
first function and is refused without it. -/
theorem run_semicolon_definition :
    let first := ofText .standard {} "def f(x) x"
    let second (g : Generator) := ofText .standard g "1.2.3 def g(y) f(y)"
    let whole := ofText .standard {} "def f(x) x\n;1.2.3 def g(y) f(y)"
    let malformed : Outcome := .error (.parse (.lex (.invalidNumber "1.2.3")))
    (first.Parses ∧ (second {}).trace.map Prod.fst =
      [malformed, .error (.generate (.unknownFunction "f"))]) ∧
    (whole.trace = first.trace ++ (second first.run.2.generator).trace ∧
      whole.run.2.generator = (second first.run.2.generator).run.2.generator) ∧
    whole.trace.map Prod.fst =
      [.ok ⟨.definition, ⟨"f", 1⟩⟩, malformed, .ok ⟨.definition, ⟨"g", 1⟩⟩] ∧
    whole.run.2.module.functions =
      [⟨"f", 1, some ⟨["x"], #[.param 0], ⟨0⟩⟩⟩,
        ⟨"g", 1, some ⟨["y"], #[.param 0, .call "f" [⟨0⟩]], ⟨1⟩⟩⟩] :=
  ⟨by decide +kernel,
    run_semicolon rfl {} "def f(x) x" "1.2.3 def g(y) f(y)" (by decide +kernel),
    by decide +kernel, by decide +kernel⟩

theorem getLast?_atSemicolon (ops : Operators) (g : Generator) (text : String) :
    (atSemicolon ops g text).parser.ahead.getLast? =
      some ((items (Lexer.ofText text)).getLastD (.token (.char ';'))) := by
  rw [Parser.ahead_of_ne (by exact nofun), List.getLast?_cons, List.getLastD_eq_getLast?]
  rfl

theorem kept_atSemicolon (ops : Operators) (g : Generator) (text : String) :
    (atSemicolon ops g text).kept =
      if (items (Lexer.ofText text)).getLastD (.token (.char ';')) = .token (.char ';') then
        (ofText ops g text).trace
      else (ofText ops g text).trace.dropLast := by
  rw [kept, getLast?_atSemicolon, trace_atSemicolon]
  simp only [Option.some.injEq]

/-- No run that parses begins with all but its last turn and then a form that is not parsed. -/
theorem Parses.not_prefix {s : Session Lexer} {o : Outcome} {g : Generator}
    {more : List (Outcome × Generator)} (hs : s.Parses) (hne : s.trace ≠ [])
    (ho : unparsed o = true) : ¬ s.trace <+: s.trace.dropLast ++ (o, g) :: more := by
  obtain ⟨init, last, htrace⟩ : ∃ init last, s.trace = init ++ [last] :=
    ⟨_, _, (List.dropLast_concat_getLast hne).symm⟩
  have hlast := hs last (by simp [htrace])
  rw [htrace, List.dropLast_concat, List.prefix_append_right_inj, List.cons_prefix_cons]
  rintro ⟨rfl, -⟩
  cases hlast.symm.trans ho

/-- The items of a text that begins with digits and points, as a tail. -/
def numberTail (ops : Operators) {b : String} (hb : b.toList.takeWhile isNumberChar ≠ []) :
    Tail where
  operators := ops
  items := items (Lexer.ofText b)
  ends := by
    obtain ⟨rest, hitems⟩ := Lexer.items_number hb
    rw [hitems, Lexer.numberItem]
    split
    · rintro t rest h
      cases h
      exact ops.ends_number _
    · nofun

theorem trace_number {ops : Operators} {g : Generator} {a b : String} {v : Float}
    (ha : (ofText ops g a).Parses) (hb : b.toList.takeWhile isNumberChar ≠ [])
    (hv : literalValue? (b.toList.takeWhile isNumberChar) = some v) :
    (ofText ops g a).trace <+: (ofText ops g (a ++ "\n" ++ b)).trace := by
  obtain ⟨rest, hitems⟩ := Lexer.items_number hb
  rw [Lexer.numberItem, hv] at hitems
  rw [← parses_atSemicolon] at ha
  obtain ⟨p, r, -, -, htrace, -⟩ := trace_append hitems (alike_newline (numberTail ops hb) rfl) ha
  rw [trace_atSemicolon, trace_atSemicolon] at htrace
  exact htrace ▸ List.prefix_append _ _

theorem trace_malformed {ops : Operators} {g : Generator} {a b : String}
    (ha : (ofText ops g a).Parses) (hb : b.toList.takeWhile isNumberChar ≠ [])
    (hv : literalValue? (b.toList.takeWhile isNumberChar) = none) :
    let kept := (atSemicolon ops g a).kept
    ∃ more, (ofText ops g (a ++ "\n" ++ b)).trace = kept ++
      (.error (.parse (.lex (.invalidNumber (String.ofList (b.toList.takeWhile isNumberChar))))),
        (kept.map Prod.snd).getLastD g) :: more := by
  obtain ⟨rest, hitems⟩ := Lexer.items_number hb
  rw [Lexer.numberItem, hv] at hitems
  rw [← parses_atSemicolon] at ha
  obtain ⟨more, htrace⟩ := trace_cut hitems (alike_newline (numberTail ops hb) rfl) ha
  rw [trace_atSemicolon] at htrace
  exact ⟨more, htrace⟩

/-- **A number behind a text that parses** leaves what the text reports, unless it is malformed and
the text does not end with a semicolon.  Then the text's last form is not reported, though it is
complete: the malformed lexeme is reported in its place, with nothing generated for it. -/
theorem run_before_number (ops : Operators) (g : Generator) (a b : String)
    (ha : (ofText ops g a).Parses) (hb : b.toList.takeWhile isNumberChar ≠ []) :
    let alone := ofText ops g a
    let both := ofText ops g (a ++ "\n" ++ b)
    let literal := b.toList.takeWhile isNumberChar
    let apart := (literalValue? literal).isSome ∨
      (items (Lexer.ofText a)).getLastD (.token (.char ';')) = .token (.char ';')
    (alone.trace <+: both.trace ↔ apart) ∧
    (¬ apart → alone.trace ≠ [] ∧ ∃ more, both.trace = alone.trace.dropLast ++
      (.error (.parse (.lex (.invalidNumber (String.ofList literal)))),
        (alone.trace.dropLast.map Prod.snd).getLastD g) :: more) := by
  intro alone both literal apart
  cases hv : literalValue? literal with
  | some v =>
      have hapart : apart := .inl (by rw [hv]; rfl)
      exact ⟨iff_of_true (trace_number ha hb hv) hapart, fun h => absurd hapart h⟩
  | none =>
      obtain ⟨more, htrace⟩ := trace_malformed ha hb hv
      rw [kept_atSemicolon] at htrace
      by_cases hlast : (items (Lexer.ofText a)).getLastD (.token (.char ';')) = .token (.char ';')
      · rw [if_pos hlast] at htrace
        have hapart : apart := .inr hlast
        exact ⟨iff_of_true (htrace ▸ List.prefix_append _ _) hapart, fun h => absurd hapart h⟩
      · rw [if_neg hlast] at htrace
        have hapart : ¬ apart := by
          rintro (h | h)
          · rw [hv] at h; cases h
          · exact hlast h
        have hne : alone.trace ≠ [] := by
          rw [← trace_atSemicolon]
          exact trace_ne_nil (ready_atSemicolon ops g a) (getLast?_atSemicolon ops g a) hlast
        refine ⟨iff_of_false ?_ hapart, fun _ => ⟨hne, more, htrace⟩⟩
        rw [htrace]
        exact ha.not_prefix hne rfl

/-- A definition is kept before a number, and lost to a malformed one. -/
theorem run_before_number_definition :
    let alone := ofText .standard {} "def f(x) x"
    alone.Parses ∧ alone.trace.length = 1 ∧
      alone.trace <+: (ofText .standard {} "def f(x) x\n1.2").trace ∧
      ¬ alone.trace <+: (ofText .standard {} "def f(x) x\n1.2.3").trace := by
  have hparses : (ofText .standard {} "def f(x) x").Parses := by decide +kernel
  refine ⟨hparses, by decide +kernel, ?_, ?_⟩
  · have h := run_before_number .standard {} "def f(x) x" "1.2" hparses (by decide)
    exact h.1.2 (.inl (by decide))
  · have h := run_before_number .standard {} "def f(x) x" "1.2.3" hparses (by decide)
    exact fun hprefix => absurd (h.1.1 hprefix) (by decide +kernel)

end Texts

end Session

end Reckon
