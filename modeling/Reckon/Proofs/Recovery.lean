import Reckon.Proofs.Abreast
import Reckon.Proofs.Locality

/-!
# Proofs — Recovery

Where a step leaves the cursor.  A form that is parsed has been spelled (`Form.Spelled`), and the
cursor stands right behind it; a form that is not breaks at an item, which is a malformed lexeme, or
the token under the cursor (`ParseError.MetAt`).  Work that takes nothing but tokens, and at its end
stands behind them or is broken there, *lands* (`Parser.Lands`); it is closed under sequence, so
every part of a form lands, and so does the form (`Parser.lands_form`).

An expression that is nested too deeply is refused where it would begin: the machine keeps room for
one more bracket (`Machine.Roomy`), and the brackets that are open then are as many as may be
(`AtLimit`).

* `Parser.lands_nextForm`: where the next form ends or breaks.
* `Parser.standsAt_recover`: recovering stands on the first token behind the item.
* `step_resumes`: where a step that fails leaves the cursor, and what it leaves of the generator.
-/

namespace Reckon

open ItemStream (Final items)

/-! ### Forms as they are written -/

/-- The tokens that spell the prototype. -/
def Prototype.tokens (f : Prototype) : List Token :=
  .ident f.name :: .char '(' :: f.params.map .ident ++ [.char ')']

/-- The tokens spell the form. -/
inductive Form.Spelled (ops : Operators) : Form → List Token → Prop where
  | definition (f : Prototype) {φ : Phrase} (hφ : φ.Graded ops) :
      Spelled ops (.definition ⟨f, φ.expr⟩) (.defKeyword :: f.tokens ++ φ.tokens)
  | declaration (f : Prototype) : Spelled ops (.declaration f) (.externKeyword :: f.tokens)
  | expression {φ : Phrase} (hφ : φ.Graded ops) :
      Spelled ops (.expression ⟨.anonymous, φ.expr⟩) φ.tokens

/-- The tokens open as many brackets and argument lists as may be open, and an expression is to
begin behind them. -/
def AtLimit (ops : Operators) (ts : List Token) : Prop :=
  ∃ fs, Opened ops fs ts ∧ fs.length = maxNesting

/-- The tokens do so in a form: at its beginning, or behind the head of a definition. -/
inductive Form.AtLimit (ops : Operators) : List Token → Prop where
  | expression {ts : List Token} (h : Reckon.AtLimit ops ts) : AtLimit ops ts
  | definition (f : Prototype) {ts : List Token} (h : Reckon.AtLimit ops ts) :
      AtLimit ops (.defKeyword :: f.tokens ++ ts)

/-! ### Where the cursor stands -/

namespace Parser

variable {σ : Type} [ItemStream σ] {p q : Parser σ} {left rest : List Item}

/-- The cursor stands on the first of the items and the others are behind it; where there is none,
it stands on the end of the input. -/
structure StandsAt (p : Parser σ) (left : List Item) : Prop where
  primed : p.primed = true
  current : left.headD .eof = .token p.current
  behind : items p.stream = left.tail

theorem Ready.standsAt (h : p.Ready) (hp : p.primed = true) : p.StandsAt p.ahead := by
  by_cases hc : p.current = .eof
  · rw [h.ahead_eq_nil hp hc]
    exact ⟨hp, by rw [hc]; rfl, h.ended hp hc⟩
  · rw [ahead_of_ne hc]
    exact ⟨hp, rfl, rfl⟩

theorem StandsAt.eq_cons (h : p.StandsAt left) (hne : p.current ≠ .eof) :
    left = .token p.current :: left.tail := by
  cases left with
  | nil => exact absurd (Item.token.inj h.current).symm hne
  | cons item rest => exact congrArg (· :: rest) h.current

end Parser

/-- The error is met at the first of the items.  A malformed lexeme has been passed; any other error
is about the token under the cursor, and if it is that too many brackets are open, the tokens before
are `deep`. -/
def ParseError.MetAt {σ : Type} [ItemStream σ] (deep : Prop) (q : Parser σ) (left : List Item) :
    ParseError → Prop
  | .lex x => left = .malformed x :: items q.stream
  | .nestingTooDeep limit => q.StandsAt left ∧ limit = maxNesting ∧ deep
  | e => q.StandsAt left ∧ e.About q.current

namespace ParseError.MetAt

variable {σ : Type} [ItemStream σ] {e : ParseError} {deep deep' : Prop} {q : Parser σ}
  {left : List Item}

/-- The items behind the cursor are those behind the one where the error is met. -/
theorem behind (h : e.MetAt deep q left) : items q.stream = left.tail := by
  cases e with
  | lex x => rw [show left = _ from h]; rfl
  | _ => exact h.1.behind

theorem mono (h : e.MetAt deep q left) (hdeep : deep → deep') : e.MetAt deep' q left := by
  cases e with
  | nestingTooDeep limit => exact ⟨h.1, h.2.1, hdeep h.2.2⟩
  | _ => exact h

end ParseError.MetAt

/-! ### Work that lands -/

namespace Parser

variable {σ : Type} [ItemStream σ] {α β : Type} {p : Parser σ} {left rest : List Item}
  {ops : Operators} {spelled : α → List Token → Prop} {spelled' : β → List Token → Prop}
  {deep deep' : List Token → Prop}

/-- Where work that begins on the first of the items ends: it has taken tokens, and the cursor
stands behind those that spell its result, or the error is met there. -/
def Lands (ops : Operators) (left : List Item) (spelled : α → List Token → Prop)
    (deep : List Token → Prop) : EStateM.Result ParseError (Parser σ) α → Prop
  | .ok a q => ∃ ts rest, left = ts.map .token ++ rest ∧ q.StandsAt rest ∧ q.operators = ops ∧
      spelled a ts
  | .error e q => ∃ ts rest, left = ts.map .token ++ rest ∧ e.MetAt (deep ts) q rest

theorem Lands.mono {wider : α → List Token → Prop} {r : EStateM.Result ParseError (Parser σ) α}
    (h : Lands ops left spelled deep r) (hspelled : ∀ a ts, spelled a ts → wider a ts)
    (hdeep : ∀ ts, deep ts → deep' ts) : Lands ops left wider deep' r := by
  cases r with
  | ok a q =>
      obtain ⟨ts, rest, hleft, hq, hops, hts⟩ := h
      exact ⟨ts, rest, hleft, hq, hops, hspelled a ts hts⟩
  | error e q =>
      obtain ⟨ts, rest, hleft, hq⟩ := h
      exact ⟨ts, rest, hleft, ParseError.MetAt.mono hq (hdeep ts)⟩

/-- Work that lands from behind tokens lands from before them. -/
theorem Lands.behind {passed : List Token} {r : EStateM.Result ParseError (Parser σ) α}
    (h : Lands ops rest (fun a ts => spelled a (passed ++ ts)) (fun ts => deep (passed ++ ts)) r) :
    Lands ops (passed.map .token ++ rest) spelled deep r := by
  cases r with
  | ok a q =>
      obtain ⟨ts, rest', rfl, hq⟩ := h
      exact ⟨passed ++ ts, rest', by simp, hq⟩
  | error e q =>
      obtain ⟨ts, rest', rfl, hq⟩ := h
      exact ⟨passed ++ ts, rest', by simp, hq⟩

/-- Work that goes on where other work has landed lands. -/
theorem Lands.bind {m : ParseM σ α} {f : α → ParseM σ β} (hm : Lands ops left spelled deep (m p))
    (hdeep : ∀ ts, deep ts → deep' ts)
    (hf : ∀ a ts q rest, spelled a ts → q.StandsAt rest → q.operators = ops →
      Lands ops rest (fun b us => spelled' b (ts ++ us)) (fun us => deep' (ts ++ us)) (f a q)) :
    Lands ops left spelled' deep' ((m >>= f) p) := by
  cases hr : m p with
  | ok a q =>
      rw [hr] at hm
      obtain ⟨ts, rest, rfl, hq, hops, hts⟩ := hm
      rw [bind_of_ok hr]
      exact (hf a ts q rest hts hq hops).behind
  | error e q =>
      rw [hr] at hm
      obtain ⟨ts, rest, rfl, hq⟩ := hm
      rw [bind_of_error hr]
      exact ⟨ts, rest, rfl, hq.mono (hdeep ts)⟩

/-- Work that leaves the cursor where it is lands. -/
theorem lands_of_still {m : ParseM σ α} {a : α} {journal : Journal} (hp : p.StandsAt left)
    (hm : m p = .ok a { p with journal }) (ha : spelled a []) :
    Lands p.operators left spelled deep (m p) := by
  rw [hm]
  exact ⟨[], left, rfl, ⟨hp.primed, hp.current, hp.behind⟩, rfl, ha⟩

/-- A token that has to be the wanted one is, or the error is met there. -/
theorem lands_expect {m : ParseM σ α} {wanted : Token} {error : Token → ParseError}
    (herror : (error p.current).MetAt (deep []) p left)
    (hm : p.current = wanted → Lands ops left spelled deep (m p)) :
    Lands ops left spelled deep (expect wanted error m p) := by
  rw [expect_eq]
  by_cases h : p.current = wanted
  · rw [if_pos h]
    exact hm h
  · rw [if_neg h]
    exact ⟨[], left, rfl, herror⟩

variable [Final σ]

/-- A move passes the token under the cursor. -/
theorem lands_advance (hp : p.StandsAt left) (hne : p.current ≠ .eof) :
    Lands p.operators left (fun _ ts => ts = [p.current]) (fun _ => False) (advance p) := by
  have hleft : left = [p.current].map .token ++ items p.stream := by
    rw [hp.behind]
    exact hp.eq_cons hne
  cases h : advance p with
  | ok u q =>
      obtain ⟨hahead, hready⟩ := ahead_advance h
      have hq := hready.standsAt (primed_of_advance h)
      rw [hahead] at hq
      exact ⟨_, _, hleft, hq, operators_of_advance h, rfl⟩
  | error e q =>
      obtain ⟨x, rfl, hx⟩ := ahead_advance_error h
      exact ⟨_, _, hleft, hx⟩

theorem lands_take (hp : p.StandsAt left) (hne : p.current ≠ .eof) :
    Lands p.operators left (fun _ ts => ts = [p.current]) (fun _ => False) (take p) := by
  rw [take, bind_of_primed hp.primed]
  refine (lands_advance hp hne).bind (fun _ => id) fun _ ts q rest hts hq hops => ?_
  rw [← hops]
  exact lands_of_still hq rfl (by simpa using hts)

/-! ### Prototypes -/

/-- The names of parameters are taken, behind the token under the cursor. -/
theorem lands_parameters (read : List String) (hp : p.StandsAt left) (hne : p.current ≠ .eof) :
    Lands p.operators left
      (fun params ts => ∃ xs, params = read.reverse ++ xs ∧ ts = p.current :: xs.map .ident)
      (fun _ => False) (parameters read p) := by
  have hadvance := lands_advance hp hne
  fun_induction parameters read p generalizing left with
  | case1 read p e q h =>
      rw [h] at hadvance
      exact hadvance
  | case2 read p u q h x hx ih =>
      rw [h] at hadvance
      obtain ⟨ts, rest, rfl, hq, hops, rfl⟩ := hadvance
      have hq' : q.current ≠ .eof := by simp [hx]
      have hrest := ih hq hq' (lands_advance hq hq')
      rw [hops] at hrest
      refine Lands.behind (Lands.mono hrest ?_ fun _ => id)
      rintro params us ⟨xs, rfl, rfl⟩
      exact ⟨x :: xs, by simp, by simp [hx]⟩
  | case3 read p u q h hx =>
      rw [h] at hadvance
      obtain ⟨ts, rest, hleft, hq, hops, rfl⟩ := hadvance
      exact ⟨_, rest, hleft, hq, hops, [], by simp, rfl⟩

/-- A prototype lands behind its tokens. -/
theorem lands_prototype (hp : p.StandsAt left) :
    Lands p.operators left (fun f ts => ts = f.tokens) (fun _ => False) (prototype p) := by
  by_cases hname : ∃ name, p.current = .ident name
  · obtain ⟨name, hname⟩ := hname
    rw [prototype_of_ident hp.primed hname]
    refine (lands_advance hp (by simp [hname])).bind (fun _ => id) ?_
    rintro _ _ q rest rfl hq hops
    refine lands_expect ⟨hq, rfl⟩ fun hopen => ?_
    rw [← hops]
    refine (lands_parameters [] hq (by simp [hopen])).bind (fun _ => id) ?_
    rintro _ _ r rest' ⟨params, rfl, rfl⟩ hr hops'
    refine lands_expect ⟨hr, rfl⟩ fun hclose => ?_
    rw [← hops']
    refine (lands_advance hr (by simp [hclose])).bind (fun _ => id) ?_
    rintro _ _ s rest'' rfl hs hops''
    rw [← hops'']
    refine lands_of_still hs rfl ?_
    simp [Prototype.tokens, hname, hopen, hclose]
  · rw [prototype_of_ne hp.primed fun name h => hname ⟨name, h⟩]
    exact ⟨[], left, rfl, hp, rfl⟩

end Parser

/-! ### Expressions -/

namespace Machine

variable {ops : Operators} {m m' : Machine} {ts : List Token} {t : Token} {e : ParseError}

/-- There is room for one more bracket, or as many are open as may be and nothing has been read
inside the innermost one. -/
def Roomy (m : Machine) : Prop :=
  m.frames.length < maxNesting ∨
    m.control = .start ∧ m.pending = [] ∧ m.frames.length = maxNesting

theorem Roomy.beginOperand {os : List Pending} {fs : List Frame}
    (h : Machine.beginOperand os fs t = .shift m') : m'.Roomy := by
  unfold Machine.beginOperand at h
  split at h
  · cases h
  · next hlt =>
      split at h
      · cases h
        exact .inl (Nat.lt_of_not_le hlt)
      · cases h
        exact .inl (Nat.lt_of_not_le hlt)
      · cases h
        rcases Nat.lt_or_eq_of_le (Nat.lt_of_not_le hlt) with hroom | hfull
        · exact .inl hroom
        · exact .inr ⟨rfl, rfl, hfull⟩
      · cases h

theorem Roomy.endOperand {e' : Expr} {os : List Pending} {fs : List Frame}
    (hfs : fs.length < maxNesting) (h : Machine.endOperand ops e' os fs t = .shift m') :
    m'.Roomy := by
  unfold Machine.endOperand at h
  split at h
  · cases h
    exact .inl hfs
  · unfold endChain at h
    split at h
    · cases h
    · split at h
      · cases h
        exact .inl (Nat.lt_of_succ_lt hfs)
      · cases h
    · split at h
      · cases h
        exact .inl (Nat.lt_of_succ_lt hfs)
      · split at h
        · cases h
          exact .inl hfs
        · cases h

/-- A machine that takes a token keeps room. -/
theorem Roomy.step (hm : m.Roomy) (h : m.step ops t = .shift m') : m'.Roomy := by
  have hroom (hc : m.control ≠ .start) : m.frames.length < maxNesting :=
    hm.resolve_right fun hfull => hc hfull.1
  unfold Machine.step at h
  split at h
  · exact .beginOperand h
  · next x hc =>
      split at h
      · cases h
        exact .inl (hroom (by simp [hc]))
      · exact .endOperand (hroom (by simp [hc])) h
  · next f hc =>
      split at h
      · cases h
        exact .inl (hroom (by simp [hc]))
      · exact .beginOperand h
  · next e' hc => exact .endOperand (hroom (by simp [hc])) h

variable {σ : Type} [ItemStream σ] {p : Parser σ} {left : List Item}

/-- The machine fails at the token under the cursor, or where one bracket more would be open than
may be. -/
theorem Read.metAt (hm : Read ops m ts) (hroom : m.Roomy) (hp : p.StandsAt left)
    (h : m.step ops p.current = .fail e) : e.MetAt (AtLimit ops ts) p left := by
  have hend (h : e = .expectedCloseParen p.current ∨ e = .expectedArgumentSeparator p.current) :
      e.MetAt (AtLimit ops ts) p left := by
    rcases h with rfl | rfl
    · exact ⟨hp, rfl⟩
    · exact ⟨hp, rfl⟩
  obtain ⟨hf, hw, hc⟩ := hm
  cases hc with
  | start =>
      rcases beginOperand_fail h with ⟨rfl, hfull⟩ | rfl
      · obtain ⟨-, hnone, heq⟩ := hroom.resolve_left (Nat.not_lt.mpr hfull)
        -- nothing has been read inside the innermost bracket
        cases hw with
        | nil => exact ⟨hp, rfl, _, by simpa using hf, heq⟩
        | cons => cases hnone
      · exact ⟨hp, rfl⟩
  | name x =>
      simp only [Machine.step] at h
      split at h
      · cases h
      · exact hend (endOperand_fail h)
  | opened f =>
      simp only [Machine.step] at h
      split at h
      · cases h
      · rcases beginOperand_fail h with ⟨rfl, hfull⟩ | rfl
        · have hlt := hroom.resolve_right fun hstart => by cases hstart.1
          exact ⟨hp, rfl, _, .arguments f [] hf hw trivial, Nat.le_antisymm hlt hfull⟩
        · exact ⟨hp, rfl⟩
  | operand hφ hn => exact hend (endOperand_fail h)

/-- A run lands behind the rest of an expression whose beginning the machine has read. -/
theorem Read.lands [Final σ] (hm : Read p.operators m ts) (hroom : m.Roomy)
    (hp : p.StandsAt left) :
    Parser.Lands p.operators left
      (fun e us => ∃ φ : Phrase, φ.Graded p.operators ∧ φ.expr = e ∧ φ.tokens = ts ++ us)
      (fun us => AtLimit p.operators (ts ++ us)) (m.run p) := by
  fun_induction Machine.run m p generalizing ts left with
  | case1 m p e hs =>
      obtain ⟨φ, hφ, he, ht, -⟩ := hm.done hs
      exact ⟨[], left, rfl, hp, rfl, φ, hφ, he, by simpa using ht⟩
  | case2 m p e hs => exact ⟨[], left, rfl, by simpa using hm.metAt hroom hp hs⟩
  | case3 m p m' hs u q ha ih =>
      have hadvance := Parser.lands_advance hp (ne_eof_of_shift hs)
      rw [ha] at hadvance
      obtain ⟨_, rest, rfl, hq, hops, rfl⟩ := hadvance
      have hrest := ih (hops ▸ hm.step hs) (hroom.step hs) hq
      rw [hops] at hrest
      refine Parser.Lands.behind (Parser.Lands.mono hrest ?_ ?_)
      · rintro e us ⟨φ, hφ, he, ht⟩
        exact ⟨φ, hφ, he, by simpa using ht⟩
      · intro us h
        simpa using h
  | case4 m p m' hs e q ha =>
      have hadvance := Parser.lands_advance hp (ne_eof_of_shift hs)
      rw [ha] at hadvance
      obtain ⟨us, rest, hleft, hmet⟩ := hadvance
      exact ⟨us, rest, hleft, ParseError.MetAt.mono hmet False.elim⟩

end Machine

/-! ### Forms -/

namespace Parser

variable {σ : Type} [ItemStream σ] [Final σ] {p : Parser σ} {left : List Item}

theorem lands_expression (hp : p.StandsAt left) :
    Lands p.operators left
      (fun e ts => ∃ φ : Phrase, φ.Graded p.operators ∧ φ.expr = e ∧ φ.tokens = ts)
      (AtLimit p.operators) (expression p) := by
  rw [expression_of_primed hp.primed]
  have hroom : ({} : Machine).Roomy := .inl (by decide)
  exact Machine.Read.lands (.mk .nil .nil .start) hroom hp

theorem lands_definition (hp : p.StandsAt left) (hdef : p.current = .defKeyword) :
    Lands p.operators left (Form.Spelled p.operators) (Form.AtLimit p.operators)
      (definition p) := by
  refine (lands_take hp (by simp [hdef])).bind nofun ?_
  rintro _ _ q rest rfl hq hops
  rw [← hops]
  refine (lands_prototype hq).bind nofun ?_
  rintro f _ r rest' rfl hr hops'
  rw [← hops']
  refine (lands_expression hr).bind ?_ ?_
  · intro ts h
    simpa [hdef] using Form.AtLimit.definition f h
  · rintro _ _ s rest'' ⟨φ, hφ, rfl, rfl⟩ hs hops''
    rw [← hops''] at hφ ⊢
    refine lands_of_still hs rfl ?_
    simpa [hdef] using Form.Spelled.definition f hφ

theorem lands_declaration (hp : p.StandsAt left) (hkeyword : p.current = .externKeyword) :
    Lands p.operators left (Form.Spelled p.operators) (Form.AtLimit p.operators)
      (declaration p) := by
  refine (lands_take hp (by simp [hkeyword])).bind nofun ?_
  rintro _ _ q rest rfl hq hops
  rw [← hops]
  refine (lands_prototype hq).bind nofun ?_
  rintro f _ r rest' rfl hr hops'
  rw [← hops']
  refine lands_of_still hr rfl ?_
  simpa [hkeyword] using Form.Spelled.declaration f

theorem lands_bareExpression (hp : p.StandsAt left) :
    Lands p.operators left (Form.Spelled p.operators) (Form.AtLimit p.operators)
      (bareExpression p) := by
  refine (lands_expression hp).bind (fun ts h => .expression h) ?_
  rintro _ _ q rest ⟨φ, hφ, rfl, rfl⟩ hq hops
  rw [← hops] at hφ ⊢
  refine lands_of_still hq rfl ?_
  simpa using Form.Spelled.expression hφ

/-- **A form lands behind the tokens that spell it**, or where it is broken. -/
theorem lands_form (hp : p.StandsAt left) :
    Lands p.operators left (Form.Spelled p.operators) (Form.AtLimit p.operators)
      (form p.current p) := by
  cases hc : p.current with
  | defKeyword => exact lands_definition hp hc
  | externKeyword => exact lands_declaration hp hc
  | _ => exact lands_bareExpression hp

omit [Final σ] in
theorem operators_of_toForm {q : Parser σ} {t : Token} (h : toForm p = .ok t q) :
    q.operators = p.operators := by
  fun_induction toForm p with
  | case1 p e r hpeek => cases h
  | case2 p r e r' ha hpeek => cases h
  | case3 p r u r' ha hpeek ih =>
      exact (ih h).trans ((operators_of_advance ha).trans (operators_of_peek hpeek))
  | case4 p t r hpeek ht =>
      cases h
      exact operators_of_peek hpeek

/-- **Where the next form ends or breaks.**  Semicolons are passed before it. -/
theorem lands_nextForm (hp : p.Ready) :
    match nextForm p with
    | .ok none _ => True
    | .ok (some f) q => ∃ k ts rest,
        p.ahead = List.replicate k (.token (.char ';')) ++ ts.map .token ++ rest ∧
        f.Spelled p.operators ts ∧ q.StandsAt rest
    | .error e q => ∃ k ts rest,
        p.ahead = List.replicate k (.token (.char ';')) ++ ts.map .token ++ rest ∧
        e.MetAt (Form.AtLimit p.operators ts) q rest := by
  have hto := ahead_toForm hp
  simp only [nextForm, bind, EStateM.bind]
  cases ht : toForm p with
  | error e q =>
      rw [ht] at hto
      obtain ⟨k, x, rfl, hk⟩ := hto
      exact ⟨k, [], _, by simpa using hk, rfl⟩
  | ok t q =>
      rw [ht] at hto
      obtain ⟨⟨k, hk⟩, hready, hprimed, rfl, -⟩ := hto
      by_cases heof : q.current = .eof
      · rw [heof]
        trivial
      · have hlands := lands_form (hready.standsAt hprimed)
        rw [operators_of_toForm ht] at hlands
        simp only [if_neg heof, EStateM.bind]
        cases hf : form q.current q with
        | ok f r =>
            rw [hf] at hlands
            obtain ⟨ts, rest, hq, hr, -, hspelled⟩ := hlands
            exact ⟨k, ts, rest, by rw [hk, hq, List.append_assoc], hspelled, hr⟩
        | error e r =>
            rw [hf] at hlands
            obtain ⟨ts, rest, hq, hmet⟩ := hlands
            exact ⟨k, ts, rest, by rw [hk, hq, List.append_assoc], hmet⟩

/-! ### Resuming -/

omit [Final σ] in
theorem primed_resume (p : Parser σ) : (resume p).primed = true := by
  fun_induction resume p with
  | case1 p u q h => exact primed_of_advance h
  | case2 p e q h ih => exact ih

/-- Recovering passes the malformed lexemes ahead, and stands on the token behind them or on the
end. -/
theorem standsAt_dropWhile (e : ParseError) (q : Parser σ) :
    (q.recover e).StandsAt ((items q.stream).dropWhile Item.isMalformed) := by
  obtain ⟨hahead, hready⟩ := Session.ahead_recover e q
  have hstands := hready.standsAt (primed_resume _)
  rwa [hahead] at hstands

/-- **Recovering stands on the first token behind the item where the error is met**, or on the end.
-/
theorem standsAt_recover {e : ParseError} {deep : Prop} {q : Parser σ}
    (h : e.MetAt deep q left) : (q.recover e).StandsAt (left.tail.dropWhile Item.isMalformed) := by
  have hstands := standsAt_dropWhile e q
  rwa [h.behind] at hstands

end Parser

namespace Session

variable {σ : Type} [ItemStream σ] [Final σ] {s : Session σ}

omit [ItemStream σ] [Final σ] in
/-- A form that has been parsed fails only as its generation does. -/
theorem after_of_settle {form : Form} {p : Parser σ} {g : Generator} {e : SessionError}
    (h : (settle form p g).1 = .error e) :
    ∃ failure, e = .generate failure ∧ (g.after form).1 = .error failure := by
  rw [settle] at h
  rw [Generator.after]
  cases hg : Generator.generate form g with
  | ok handle g' => rw [hg] at h; cases h
  | error failure g' => rw [hg] at h; cases h; exact ⟨failure, rfl, rfl⟩

/-- A step that cannot parse a form leaves the generator as it is, and stands on the first token
behind the item that broke the form. -/
theorem step_of_parse {e : ParseError} (hs : s.parser.Ready)
    (h : s.step.1 = some (.error (.parse e))) :
    s.step.2.generator = s.generator ∧
    ∃ q k ts left, s.hush.parser.nextForm = .error e q ∧
      s.parser.ahead = List.replicate k (.token (.char ';')) ++ ts.map .token ++ left ∧
      e.MetAt (Form.AtLimit s.parser.operators ts) q left ∧
      s.step.2.parser.StandsAt (left.tail.dropWhile Item.isMalformed) := by
  have hnext := Parser.lands_nextForm (p := s.hush.parser) ⟨hs.ended, hs.unread⟩
  rw [step_eq_nextForm] at h ⊢
  cases hf : s.hush.parser.nextForm with
  | error e' q =>
      rw [hf] at h hnext
      cases h
      obtain ⟨k, ts, left, hahead, hmet⟩ := hnext
      exact ⟨rfl, q, k, ts, left, rfl, hahead, hmet, Parser.standsAt_recover hmet⟩
  | ok form? q =>
      rw [hf] at h
      cases form? with
      | none => cases h
      | some form =>
          obtain ⟨failure, hne, -⟩ := after_of_settle (Option.some.inj h)
          cases hne

/-- A step that cannot generate a form stands right behind it. -/
theorem step_of_generate {e : GenError} (hs : s.parser.Ready)
    (h : s.step.1 = some (.error (.generate e))) :
    ∃ form q k ts left, s.hush.parser.nextForm = .ok (some form) q ∧
      s.parser.ahead = List.replicate k (.token (.char ';')) ++ ts.map .token ++ left ∧
      form.Spelled s.parser.operators ts ∧
      (s.generator.after form).1 = .error e ∧
      s.step.2.parser.StandsAt left := by
  have hnext := Parser.lands_nextForm (p := s.hush.parser) ⟨hs.ended, hs.unread⟩
  rw [step_eq_nextForm] at h ⊢
  cases hf : s.hush.parser.nextForm with
  | error e' q => rw [hf] at h; cases h
  | ok form? q =>
      rw [hf] at h hnext
      cases form? with
      | none => cases h
      | some form =>
          obtain ⟨k, ts, left, hahead, hspelled, hq⟩ := hnext
          obtain ⟨hstream, hcurrent, hprimed⟩ := still_settle form q s.generator
          obtain ⟨failure, heq, hfails⟩ := after_of_settle (Option.some.inj h)
          cases heq
          exact ⟨form, q, k, ts, left, rfl, hahead, hspelled, hfails, hprimed.trans hq.primed,
            hcurrent ▸ hq.current, hstream ▸ hq.behind⟩

end Session

/-- **A step that fails resumes right behind what it failed at.**  In every state of a session that
is begun afresh over any source, with any table of operators and any generator: where a form cannot
be parsed, the generator stays as it is.  The step has passed nothing but tokens up to the item that
breaks the form: the malformed lexeme the error is about, or else the token under the cursor, which
the error carries; if an expression is nested too deeply, it is the token where this expression
would begin, inside as many brackets as may be open.  Then the cursor stands on the first token
behind that item, or on the end; nothing but the malformed lexemes right behind the item is skipped
besides.  Where a form cannot be generated, nothing is skipped: the cursor stands right behind the
tokens that spell the form. -/
theorem step_resumes (source : Source) (ops : Operators) (g : Generator) (n : Nat) :
    let s := (⟨{ stream := .ofSource source, operators := ops }, g⟩ : Session Lexer).after n
    (∀ e, s.step.1 = some (.error (.parse e)) →
      s.step.2.generator = s.generator ∧
      ∃ q k ts left, s.hush.parser.nextForm = .error e q ∧
        s.parser.ahead = List.replicate k (.token (.char ';')) ++ ts.map .token ++ left ∧
        e.MetAt (Form.AtLimit s.parser.operators ts) q left ∧
        s.step.2.parser.StandsAt (left.tail.dropWhile Item.isMalformed)) ∧
    ∀ e, s.step.1 = some (.error (.generate e)) →
      ∃ form q k ts left, s.hush.parser.nextForm = .ok (some form) q ∧
        s.parser.ahead = List.replicate k (.token (.char ';')) ++ ts.map .token ++ left ∧
        form.Spelled s.parser.operators ts ∧
        (s.generator.after form).1 = .error e ∧
        s.step.2.parser.StandsAt left := by
  intro s
  have hfresh : ({ stream := .ofSource source, operators := ops } : Parser Lexer).Ready :=
    ⟨nofun, fun _ => rfl⟩
  have hs : s.parser.Ready := Session.ready_after hfresh n
  exact ⟨fun e => Session.step_of_parse hs, fun e => Session.step_of_generate hs⟩

/-- A bracket that a semicolon breaks, before a malformed lexeme, and then a variable that is
unknown: the first step stands on the variable, and the second behind it. -/
theorem step_resumes_bracket :
    let s : Session Lexer := ⟨.ofText "(1; 2..3 x 4", {}⟩
    let s' := s.step.2
    (s.step.1 = some (.error (.parse (.expectedCloseParen (.char ';')))) ∧
      s'.generator = s.generator ∧ s'.parser.current = .ident "x" ∧
      ∃ (q : Parser Lexer) (left : List Item), (q.StandsAt left ∧ .char ';' = q.current) ∧
        s'.parser.StandsAt (left.tail.dropWhile Item.isMalformed)) ∧
    s'.step.1 = some (.error (.generate (.unknownVariable "x"))) ∧
    s'.step.2.parser.current = .number 4 ∧
    ∃ (k : Nat) (ts : List Token) (left : List Item),
      s'.parser.ahead = List.replicate k (.token (.char ';')) ++ ts.map .token ++ left ∧
      s'.step.2.parser.StandsAt left := by
  intro s s'
  have hbroken : s.step.1 = some (.error (.parse (.expectedCloseParen (.char ';')))) := by
    decide +kernel
  have hunknown : s'.step.1 = some (.error (.generate (.unknownVariable "x"))) := by
    decide +kernel
  obtain ⟨hgenerator, q, k, ts, left, -, -, hmet, hstands⟩ :=
    (step_resumes _ .standard {} 0).1 _ hbroken
  obtain ⟨form, q', k', ts', left', -, hahead, -, -, hstands'⟩ :=
    (step_resumes _ .standard {} 1).2 _ hunknown
  exact ⟨⟨hbroken, hgenerator, by decide +kernel, q, left, hmet, hstands⟩, hunknown,
    by decide +kernel, k', ts', left', hahead, hstands'⟩

end Reckon
