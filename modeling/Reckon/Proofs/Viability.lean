import Reckon.Proofs.Nesting
import Reckon.Proofs.Recovery

/-!
# Proofs — Viability

Where an error is met.  Tokens are *viable* in a language when some sentence of it begins with them
(`Viable`).  An error that names a token is met at the first one with which the tokens passed are
viable no more (`Parser.Breaks`).

* `Machine.Read.viable`: whatever the machine has read, a sentence begins with it: an operand
  completes the innermost chain, and one bracket closes each that is open.
* `Machine.not_viable_of_failsOn`: where the machine fails depends on the tokens up to there alone,
  and it does not fail on a sentence unless that is nested too deeply; so no sentence begins with
  tokens at whose last one it fails.
* `Parser.Breaks.bind`: work that goes on behind other work breaks in the language of what can
  follow there, so prototypes and forms are taken part by part.
* `Parser.breaks_at_first_impossible`: so expressions, prototypes, declarations and definitions
  break, each in its own grammar.
-/

namespace Reckon

open ItemStream (Final items)

/-- The token the error names, if it names one. -/
def ParseError.found? : ParseError → Option Token
  | .expectedExpression t => some t
  | .expectedCloseParen t => some t
  | .expectedArgumentSeparator t => some t
  | .expectedFunctionName t => some t
  | .expectedPrototypeOpen t => some t
  | .expectedPrototypeClose t => some t
  | .lex _ => none
  | .nestingTooDeep _ => none

theorem ParseError.About.eq_of_found {e : ParseError} {t u : Token} (h : e.About t)
    (hu : e.found? = some u) : t = u := by
  cases e with
  | lex x => cases hu
  | nestingTooDeep limit => cases hu
  | _ => exact h.symm.trans (Option.some.inj hu)

/-- Some sentence of the language begins with the tokens. -/
def Viable (L : List Token → Prop) (ts : List Token) : Prop := ∃ us, L (ts ++ us)

theorem viable_append {L : List Token → Prop} {ts us : List Token} :
    Viable (fun vs => L (ts ++ vs)) us ↔ Viable L (ts ++ us) := by
  simp only [Viable, List.append_assoc]

/-! ### What has been read can be completed -/

section Completion

variable {ops : Operators} {φ : Phrase} {ts : List Token}

/-- A phrase inside brackets goes on to one with no bracket open. -/
theorem Opened.complete {fs : List Frame} (hf : Opened ops fs ts) (hφ : φ.Graded ops) :
    ∃ (ψ : Phrase) (us : List Token), ψ.Graded ops ∧ ψ.tokens = ts ++ φ.tokens ++ us := by
  induction hf generalizing φ with
  | nil => exact ⟨φ, [], hφ, by simp⟩
  | group hf hw ih =>
      obtain ⟨χ, -, hχ, hχt⟩ := hw.closeAll (φ := .group φ) hφ
        fun o _ => Phrase.bindsRight_of_none rfl _
      obtain ⟨ψ, us, hψ, hψt⟩ := ih hχ
      exact ⟨ψ, .char ')' :: us, hψ, by simp [hψt, hχt, Phrase.tokens]⟩
  | arguments f φs hf hw hφs ih =>
      have hall : Phrase.AllGraded ops (φs ++ [φ]) :=
        Phrase.allGraded_append.mpr ⟨hφs, hφ, trivial⟩
      obtain ⟨χ, -, hχ, hχt⟩ := hw.closeAll (φ := .call f (φs ++ [φ])) hall
        fun o _ => Phrase.bindsRight_of_none rfl _
      obtain ⟨ψ, us, hψ, hψt⟩ := ih hχ
      exact ⟨ψ, .char ')' :: us, hψ, by simp [hψt, hχt, Phrase.tokens_call_append]⟩

/-- What has just been read goes on to an operand. -/
theorem Control.Read.complete {c : Control} (hc : c.Read ops ts) :
    ∃ (φ : Phrase) (us : List Token), φ.Graded ops ∧ φ.strength? ops = none ∧
      φ.tokens = ts ++ us := by
  cases hc with
  | start => exact ⟨.number 0, [.number 0], trivial, rfl, rfl⟩
  | name x => exact ⟨.var x, [], trivial, rfl, rfl⟩
  | opened f => exact ⟨.call f [], [.char ')'], trivial, rfl, rfl⟩
  | operand hφ hn => exact ⟨_, [], hφ, hn, by simp⟩

/-- **A sentence begins with whatever the machine has read.** -/
theorem Machine.Read.viable {m : Machine} (hm : m.Read ops ts) : Viable (Sentence ops) ts := by
  obtain ⟨hf, hw, hc⟩ := hm
  obtain ⟨φ, us, hφ, hn, hφt⟩ := hc.complete
  obtain ⟨χ, -, hχ, hχt⟩ := hw.closeAll hφ fun o _ => Phrase.bindsRight_of_none hn _
  obtain ⟨ψ, vs, hψ, hψt⟩ := hf.complete hχ
  refine ⟨us ++ vs, ?_⟩
  have hsentence := hψ.sentence
  rw [hψt, hχt, hφt] at hsentence
  simpa using hsentence

end Completion

/-! ### No sentence goes on where the machine fails -/

namespace Machine

variable {ops : Operators} {m : Machine} {e : ParseError} {t : Token} {ts : List Token}

/-- Wherever the cursor passes the tokens, the machine fails with the error. -/
def FailsOn (ops : Operators) (m : Machine) (e : ParseError) (ts : List Token) : Prop :=
  ∀ p q : Parser (List Item), p.operators = ops → p.Reads ts q → ∃ r, m.run p = .error e r

theorem failsOn_of_fail (h : m.step ops t = .fail e) : FailsOn ops m e [t] := by
  rintro p q rfl hr
  obtain ⟨rfl, -⟩ := hr.cons_inv
  exact ⟨p, run_of_fail h⟩

theorem FailsOn.shift {m' : Machine} (h : m.step ops t = .shift m') (hm' : FailsOn ops m' e ts) :
    FailsOn ops m e (t :: ts) := by
  rintro p q rfl hr
  obtain ⟨rfl, p', hadvance, hops, hr⟩ := hr.cons_inv
  rw [run_of_shift h hadvance]
  exact hm' p' q hops hr

/-- **No sentence begins with tokens on which the machine fails**, unless it fails because they
are nested too deeply. -/
theorem not_viable_of_failsOn (hops : ops.Plain) (hfound : e.found? = some t)
    (h : FailsOn ops {} e ts) : ¬ Viable (Sentence ops) ts := by
  rintro ⟨us, hs⟩
  obtain ⟨u, vs, hcons⟩ : ∃ u vs, ts ++ us = u :: vs := by
    obtain ⟨φ, -, hφ⟩ := hs.exists_phrase
    obtain ⟨u, vs, hcons, -⟩ := φ.tokens_eq_cons
    exact ⟨u, vs, hφ.symm.trans hcons⟩
  -- the parser of the sentence and nothing else, at its first token
  let p : Parser (List Item) :=
    { stream := vs.map .token ++ [], current := u, primed := true, operators := ops }
  obtain ⟨q, hr, hq⟩ : ∃ q, p.Reads (u :: vs) q ∧ q.current = .eof :=
    Parser.exists_reads vs rfl rfl
  rw [← hcons] at hr
  obtain ⟨hparsed, hrefused⟩ := Parser.expression_of_sentence (p := p) hops hs
    (Parser.peek_of_primed rfl) hr (by rw [hq]; rfl) (by simp [hq])
  obtain ⟨p', hread, -⟩ := hr.append_inv
  obtain ⟨r, hfail⟩ := h p p' rfl hread
  rw [Parser.expression_of_primed rfl, hfail] at hparsed hrefused
  by_cases hn : enclosure 0 (ts ++ us) < maxNesting
  · obtain ⟨e', he'⟩ := hparsed hn
    cases he'
  · obtain ⟨r', hr'⟩ := hrefused (Nat.le_of_not_lt hn)
    cases hr'
    cases hfound

variable {σ : Type} [ItemStream σ] [Final σ] {p q : Parser σ} {left : List Item}
  {passed : List Token}

/-- A run that fails at a token has read viable tokens, and fails on them with that token. -/
theorem Read.fails (hm : Read p.operators m passed) (hp : p.StandsAt left)
    (h : m.run p = .error e q) (hfound : e.found? = some t) :
    ∃ ts rest, left = ts.map .token ++ rest ∧ q.StandsAt rest ∧ q.current = t ∧
      Viable (Sentence p.operators) (passed ++ ts) ∧ FailsOn p.operators m e (ts ++ [t]) := by
  fun_induction Machine.run m p generalizing passed left with
  | case1 m p e' hs => cases h
  | case2 m p e' hs =>
      cases h
      have hcurrent := (about_of_fail hs).eq_of_found hfound
      rw [hcurrent] at hs
      exact ⟨[], left, rfl, hp, hcurrent, by simpa using hm.viable, failsOn_of_fail hs⟩
  | case3 m p m' hs u p' ha ih =>
      have hadvance := Parser.lands_advance hp (ne_eof_of_shift hs)
      rw [ha] at hadvance
      obtain ⟨_, rest, rfl, hp', hops, rfl⟩ := hadvance
      obtain ⟨ts, rest', rfl, hq, hcurrent, hviable, hfails⟩ := ih (hops ▸ hm.step hs) hp' h
      rw [hops] at hviable hfails
      exact ⟨p.current :: ts, rest', by simp, hq, hcurrent, by simpa using hviable,
        hfails.shift hs⟩
  | case4 m p m' hs e' p' ha =>
      cases h
      obtain ⟨x, -, rfl, -⟩ := Parser.advance_eq_error ha
      cases hfound

end Machine

/-! ### Work that breaks at the first impossible token -/

namespace Parser

variable {σ : Type} [ItemStream σ] {α β : Type} {p q : Parser σ} {left rest : List Item}
  {L L' : List Token → Prop}

theorem StandsAt.current_of_head {t : Token} (h : p.StandsAt left)
    (ht : left.head? = some (.token t)) : p.current = t := by
  have hcurrent := h.current
  rw [List.headD_eq_head?_getD, ht] at hcurrent
  exact (Item.token.inj hcurrent).symm

/-- If work that begins on the first of the items fails at a token, it has passed tokens with which
a sentence of the language begins, the cursor stands behind them on the one the error names, and no
sentence begins with that one too. -/
def Breaks (L : List Token → Prop) (left : List Item) :
    EStateM.Result ParseError (Parser σ) α → Prop
  | .ok _ _ => True
  | .error e q => ∀ t, e.found? = some t → ∃ ts rest, left = ts.map .token ++ rest ∧
      q.StandsAt rest ∧ q.current = t ∧ Viable L ts ∧ ¬ Viable L (ts ++ [t])

theorem Breaks.congr {r : EStateM.Result ParseError (Parser σ) α} (h : Breaks L left r)
    (hL : ∀ ts, L ts ↔ L' ts) : Breaks L' left r := by
  obtain rfl : L = L' := funext fun ts => propext (hL ts)
  exact h

/-- Work that breaks behind tokens, in the language of what can follow them, breaks there from
before them. -/
theorem Breaks.behind {passed : List Token} {r : EStateM.Result ParseError (Parser σ) α}
    (h : Breaks (fun ts => L (passed ++ ts)) rest r) :
    Breaks L (passed.map .token ++ rest) r := by
  cases r with
  | ok a q => trivial
  | error e q =>
      intro t ht
      obtain ⟨ts, rest', rfl, hq, hcurrent, hviable, hnot⟩ := h t ht
      rw [viable_append] at hviable hnot
      exact ⟨passed ++ ts, rest', by simp, hq, hcurrent, hviable, by simpa using hnot⟩

/-- Work that goes on where other work has landed breaks where either does. -/
theorem Breaks.bind {ops : Operators} {spelled : α → List Token → Prop} {deep : List Token → Prop}
    {m : ParseM σ α} {f : α → ParseM σ β} (hm : Breaks L left (m p))
    (hlands : Lands ops left spelled deep (m p))
    (hf : ∀ a ts q rest, m p = .ok a q → spelled a ts → q.StandsAt rest → q.operators = ops →
      Breaks (fun us => L (ts ++ us)) rest (f a q)) : Breaks L left ((m >>= f) p) := by
  cases hr : m p with
  | ok a q =>
      rw [hr] at hlands
      obtain ⟨ts, rest, rfl, hq, hops, hts⟩ := hlands
      rw [bind_of_ok hr]
      exact (hf a ts q rest hr hts hq hops).behind
  | error e q =>
      rw [hr] at hm
      rw [bind_of_error hr]
      exact hm

/-- A token that has to be the wanted one is impossible if it is another. -/
theorem breaks_expect {m : ParseM σ α} {wanted : Token} {error : Token → ParseError}
    (hp : p.StandsAt left) (herror : (error p.current).found? = some p.current)
    (hviable : Viable L []) (hnot : p.current ≠ wanted → ¬ Viable L [p.current])
    (hm : p.current = wanted → Breaks L left (m p)) :
    Breaks L left (expect wanted error m p) := by
  rw [expect_eq]
  by_cases h : p.current = wanted
  · rw [if_pos h]
    exact hm h
  · rw [if_neg h]
    intro t ht
    obtain rfl := Option.some.inj (herror.symm.trans ht)
    exact ⟨[], left, rfl, hp, rfl, hviable, hnot h⟩

theorem breaks_advance (p : Parser σ) : Breaks L left (advance p) := by
  cases h : advance p with
  | ok u q => trivial
  | error e q =>
      obtain ⟨x, -, rfl, -⟩ := advance_eq_error h
      nofun

theorem breaks_parameters (read : List String) (p : Parser σ) :
    Breaks L left (parameters read p) := by
  fun_induction parameters read p with
  | case1 read p e q h =>
      have hadvance : Breaks L left (advance p) := breaks_advance p
      rw [h] at hadvance
      exact hadvance
  | case2 read p u q h x hx ih => exact ih
  | case3 read p u q h hx => trivial

/-- The names of parameters end at a token that is none. -/
theorem current_of_parameters {read params : List String} (h : parameters read p = .ok params q)
    (x : String) : q.current ≠ .ident x := by
  fun_induction parameters read p with
  | case1 read p e r hr => cases h
  | case2 read p u r hr y hy ih => exact ih h
  | case3 read p u r hr hne =>
      cases h
      exact hne x

/-! ### The first token on demand -/

/-- Work that begins with a look at the token under the cursor. -/
def Looks (m : ParseM σ α) : Prop :=
  ∀ p, match peek p with
    | .ok _ q => m p = m q
    | .error e q => m p = .error e q

theorem looks_peek : Looks (σ := σ) peek := by
  intro p
  cases h : peek p with
  | ok t q =>
      obtain ⟨rfl, hq⟩ := eq_current_of_peek h
      exact (peek_of_primed hq).symm
  | error e q => rfl

theorem Looks.bind {m : ParseM σ α} (hm : Looks m) (f : α → ParseM σ β) : Looks (m >>= f) := by
  intro p
  have h := hm p
  cases hp : peek p with
  | ok t q =>
      rw [hp] at h
      simp only [Bind.bind, EStateM.bind, h]
  | error e q =>
      rw [hp] at h
      exact bind_of_error h

/-- Work that begins with a look breaks as it does once the token has been read. -/
theorem Looks.breaks [Final σ] {m : ParseM σ α} (hm : Looks m) (hp : p.Ready)
    (h : ∀ q : Parser σ, q.StandsAt p.ahead → q.operators = p.operators →
      Breaks L p.ahead (m q)) : Breaks L p.ahead (m p) := by
  have hlook := hm p
  have hahead := ahead_peek hp
  cases hpeek : peek p with
  | ok t q =>
      rw [hpeek] at hlook hahead
      obtain ⟨hahead, hready, hprimed, -⟩ := hahead
      rw [show m p = m q from hlook]
      exact h q (hahead ▸ hready.standsAt hprimed) (operators_of_peek hpeek)
  | error e q =>
      rw [hpeek] at hlook hahead
      obtain ⟨x, rfl, -⟩ := hahead
      rw [show m p = _ from hlook]
      nofun

end Parser

/-! ### Prototypes -/

namespace Prototype

/-- Behind the names of parameters, where no name follows, only a bracket can. -/
theorem eq_close_of_params {params xs : List String} {t : Token} {us vs : List Token}
    (ht : ∀ x, t ≠ .ident x)
    (h : xs.map .ident ++ t :: us = params.map .ident ++ .char ')' :: vs) :
    t = .char ')' ∧ xs = params ∧ us = vs := by
  induction xs generalizing params with
  | nil =>
      cases params with
      | nil => simpa using h
      | cons x params =>
          have htx : t = .ident x := (List.cons.inj h).1
          exact absurd htx (ht x)
  | cons x xs ih =>
      cases params with
      | nil => cases (List.cons.inj h).1
      | cons y params =>
          obtain ⟨hxy, h⟩ := List.cons.inj h
          obtain ⟨rfl, rfl, rfl⟩ := ih h
          cases hxy
          exact ⟨rfl, rfl, rfl⟩

/-- A prototype is known from its tokens, whatever follows them. -/
theorem tokens_append_inj {f g : Prototype} {us vs : List Token}
    (h : f.tokens ++ us = g.tokens ++ vs) : f = g ∧ us = vs := by
  simp only [tokens, List.cons_append, List.append_assoc, List.cons.injEq, Token.ident.injEq,
    List.nil_append, true_and] at h
  obtain ⟨hname, h⟩ := h
  obtain ⟨-, hparams, hus⟩ := eq_close_of_params (fun x => by simp) h
  obtain ⟨name, params⟩ := f
  cases hname
  cases hparams
  exact ⟨rfl, hus⟩

/-- The tokens of a prototype, and then a sentence of the language. -/
def Heads (L : List Token → Prop) (ts : List Token) : Prop :=
  ∃ (f : Prototype) (us : List Token), L us ∧ ts = f.tokens ++ us

theorem heads_append {L : List Token → Prop} (f : Prototype) (us : List Token) :
    Heads L (f.tokens ++ us) ↔ L us := by
  constructor
  · rintro ⟨g, vs, hvs, h⟩
    rw [(tokens_append_inj h).2]
    exact hvs
  · intro hus
    exact ⟨f, us, hus, rfl⟩

end Prototype

namespace Parser

variable {σ : Type} [ItemStream σ] [Final σ] {p : Parser σ} {left : List Item}
  {L : List Token → Prop}

open Prototype (Heads)

/-- A prototype breaks at the first token that no prototype has there, whatever may follow it. -/
theorem breaks_prototype (hL : ∃ us, L us) (hp : p.StandsAt left) :
    Breaks (Heads L) left (prototype p) := by
  obtain ⟨us, hus⟩ := hL
  have hheads (name : String) (params : List String) :
      Heads L (.ident name :: .char '(' :: params.map .ident ++ .char ')' :: us) :=
    ⟨⟨name, params⟩, us, hus, by simp [Prototype.tokens]⟩
  by_cases hname : ∃ name, p.current = .ident name
  · obtain ⟨name, hname⟩ := hname
    rw [prototype_of_ident hp.primed hname]
    refine (breaks_advance p).bind (lands_advance hp (by simp [hname])) ?_
    rintro _ _ q rest - rfl hq -
    rw [hname]
    refine breaks_expect hq rfl ⟨_, hheads name []⟩ ?_ ?_
    · rintro hopen ⟨vs, f, ws, -, h⟩
      simp only [Prototype.tokens, List.cons_append, List.nil_append, List.cons.injEq] at h
      exact hopen h.2.1
    intro hopen
    refine (breaks_parameters [] q).bind (lands_parameters [] hq (by simp [hopen])) ?_
    rintro _ _ r rest' hparameters ⟨params, -, rfl⟩ hr -
    rw [hopen]
    refine breaks_expect hr rfl ⟨_, by simpa using hheads name params⟩ ?_ ?_
    · rintro hclose ⟨vs, f, ws, -, h⟩
      simp only [Prototype.tokens, List.cons_append, List.nil_append, List.append_assoc,
        List.cons.injEq, true_and] at h
      exact hclose (Prototype.eq_close_of_params (current_of_parameters hparameters) h.2).1
    intro hclose
    refine (breaks_advance r).bind (lands_advance hr (by simp [hclose])) ?_
    intros
    trivial
  · rw [prototype_of_ne hp.primed fun name h => hname ⟨name, h⟩]
    intro t ht
    obtain rfl : p.current = t := Option.some.inj ht
    refine ⟨[], left, rfl, hp, rfl, ⟨_, hheads "" []⟩, ?_⟩
    rintro ⟨vs, f, ws, -, h⟩
    simp only [Prototype.tokens, List.cons_append, List.nil_append, List.cons.injEq] at h
    exact hname ⟨f.name, h.1⟩

theorem breaks_lone_prototype (hp : p.StandsAt left) :
    Breaks (fun ts => ∃ f : Prototype, ts = f.tokens) left (prototype p) := by
  refine (breaks_prototype (L := (· = [])) ⟨[], rfl⟩ hp).congr fun ts => ?_
  simp [Heads]

/-! ### Expressions and forms -/

theorem breaks_expression (hops : p.operators.Plain) (hp : p.StandsAt left) :
    Breaks (Sentence p.operators) left (expression p) := by
  rw [expression_of_primed hp.primed]
  cases h : ({} : Machine).run p with
  | ok e q => trivial
  | error e q =>
      intro t ht
      obtain ⟨ts, rest, hleft, hq, hcurrent, hviable, hfails⟩ :=
        Machine.Read.fails (.mk .nil .nil .start) hp h ht
      exact ⟨ts, rest, hleft, hq, hcurrent, by simpa using hviable,
        Machine.not_viable_of_failsOn hops ht hfails⟩

theorem breaks_take (hp : p.StandsAt left) (hne : p.current ≠ .eof) : Breaks L left (take p) := by
  rw [take, bind_of_primed hp.primed]
  refine (breaks_advance p).bind (lands_advance hp hne) ?_
  intros
  trivial

theorem breaks_definition (hops : p.operators.Plain) (hp : p.StandsAt left)
    (hdef : p.current = .defKeyword) :
    Breaks (fun ts => ∃ (f : Prototype) (us : List Token), Sentence p.operators us ∧
      ts = .defKeyword :: f.tokens ++ us) left (definition p) := by
  have hne : p.current ≠ .eof := by simp [hdef]
  refine (breaks_take hp hne).bind (lands_take hp hne) ?_
  rintro _ _ q rest - rfl hq hops'
  rw [← hops'] at hops ⊢
  have hheads (ts : List Token) : Heads (Sentence q.operators) ts ↔
      ∃ (f : Prototype) (us : List Token), Sentence q.operators us ∧
        [p.current] ++ ts = .defKeyword :: f.tokens ++ us := by
    simp [Heads, hdef]
  refine Breaks.congr ?_ hheads
  refine (breaks_prototype ⟨_, .operand (.number 0)⟩ hq).bind (lands_prototype hq) ?_
  rintro f _ r rest' - rfl hr hops''
  rw [← hops''] at hops ⊢
  -- the prototype is known by now, so what can follow is a sentence
  refine Breaks.congr ?_ fun ts => (Prototype.heads_append f ts).symm
  refine (breaks_expression hops hr).bind (lands_expression hr) ?_
  intros
  trivial

theorem breaks_declaration (hp : p.StandsAt left) (hkeyword : p.current = .externKeyword) :
    Breaks (fun ts => ∃ f : Prototype, ts = .externKeyword :: f.tokens) left (declaration p) := by
  have hne : p.current ≠ .eof := by simp [hkeyword]
  refine (breaks_take hp hne).bind (lands_take hp hne) ?_
  rintro _ _ q rest - rfl hq hops
  have hbehind (ts : List Token) : (∃ f : Prototype, ts = f.tokens) ↔
      ∃ f : Prototype, [p.current] ++ ts = .externKeyword :: f.tokens := by
    simp [hkeyword]
  refine Breaks.congr ?_ hbehind
  refine (breaks_lone_prototype hq).bind (lands_prototype hq) ?_
  intros
  trivial

/-- **An error is met at the first impossible token.**  Let an expression, a prototype, a
declaration or a definition fail at a token, with a table that has no brackets and no commas.  Some
sentence of its grammar begins with the tokens before that one, and none begins with them and that
one. -/
theorem breaks_at_first_impossible (hops : p.operators.Plain) (hp : p.Ready) :
    Breaks (Sentence p.operators) p.ahead (expression p) ∧
    Breaks (fun ts => ∃ f : Prototype, ts = f.tokens) p.ahead (prototype p) ∧
    (p.ahead.head? = some (.token .externKeyword) →
      Breaks (fun ts => ∃ f : Prototype, ts = .externKeyword :: f.tokens) p.ahead
        (declaration p)) ∧
    (p.ahead.head? = some (.token .defKeyword) →
      Breaks (fun ts => ∃ (f : Prototype) (us : List Token), Sentence p.operators us ∧
        ts = .defKeyword :: f.tokens ++ us) p.ahead (definition p)) := by
  have hlooks : Looks (σ := σ) take := looks_peek.bind _
  refine ⟨?_, ?_, ?_, ?_⟩
  · refine (looks_peek.bind _).breaks hp fun q hq hops' => ?_
    rw [← hops'] at hops ⊢
    exact breaks_expression hops hq
  · exact (looks_peek.bind _).breaks hp fun q hq _ => breaks_lone_prototype hq
  · intro hhead
    refine (hlooks.bind _).breaks hp fun q hq _ => ?_
    exact breaks_declaration hq (hq.current_of_head hhead)
  · intro hhead
    refine (hlooks.bind _).breaks hp fun q hq hops' => ?_
    rw [← hops'] at hops ⊢
    exact breaks_definition hops hq (hq.current_of_head hhead)

/-- `def f(a, b) a` breaks at the comma. -/
theorem breaks_at_first_impossible_comma :
    let p := Parser.ofText "def f(a, b) a"
    let L (ts : List Token) : Prop := ∃ (f : Prototype) (us : List Token),
      Sentence p.operators us ∧ ts = .defKeyword :: f.tokens ++ us
    ∃ q ts rest, definition p = .error (.expectedPrototypeClose (.char ',')) q ∧
      p.ahead = ts.map .token ++ .token (.char ',') :: rest ∧
      Viable L ts ∧ ¬ Viable L (ts ++ [.char ',']) := by
  intro p L
  have hready : p.Ready := ⟨nofun, fun _ => rfl⟩
  have hhead : p.ahead.head? = some (.token .defKeyword) := by decide +kernel
  have hbreaks := (breaks_at_first_impossible Operators.standard_plain hready).2.2.2 hhead
  have herror : (match definition p with | .ok _ _ => none | .error e _ => some e) =
      some (.expectedPrototypeClose (.char ',')) := by decide +kernel
  cases h : definition p with
  | ok f q =>
      rw [h] at herror
      cases herror
  | error e q =>
      rw [h] at herror hbreaks
      cases herror
      obtain ⟨ts, rest, hleft, hq, hcurrent, hviable, hnot⟩ := hbreaks _ rfl
      rw [hq.eq_cons (by simp [hcurrent]), hcurrent] at hleft
      exact ⟨q, ts, rest.tail, rfl, hleft, hviable, hnot⟩

end Parser

end Reckon
