import Reckon.Proofs.Parsing
import Reckon.Proofs.Requests

/-!
# Proofs — Nesting

How deeply expressions may be nested.

* `Sentence.exists_phrase`: a sentence is spelled by a graded phrase, in which each operator stands
  where the strengths put it.
* `Phrase.Graded.enclosure_tokens`: the nesting of the phrase is the number of brackets that are
  open around its innermost operand, counted along the tokens.
* `Machine.refuses_of_graded`: the machine gives up on a phrase that is nested too deeply.
* `Parser.nesting_limited`: a parser takes a sentence or refuses it by this number alone, whatever
  it was asked for before.
-/

namespace Reckon

/-! ### Every sentence is spelled by a graded phrase -/

namespace Phrase

variable {ops : Operators} {op : Char} {s : Nat} {φ ψ : Phrase}

/-- The phrase with an operator and an operand more behind it.  What binds less tightly than the
operator keeps its left operand, and the operator goes into its right one. -/
def attach (ops : Operators) (op : Char) (ψ : Phrase) : Phrase → Phrase
  | .binary op' l r =>
    if (ops op').getD 0 < (ops op).getD 0 then .binary op' l (attach ops op ψ r)
    else .binary op (.binary op' l r) ψ
  | φ => .binary op φ ψ

theorem tokens_attach (ops : Operators) (op : Char) (ψ φ : Phrase) :
    (attach ops op ψ φ).tokens = φ.tokens ++ .char op :: ψ.tokens := by
  fun_induction attach ops op ψ φ with
  | case1 op' l r hlt ih => simp [tokens, ih]
  | case2 op' l r hle => simp [tokens]
  | case3 φ hφ => simp [tokens]

/-- The phrase hangs from the operator it hung from, or from the new one. -/
theorem strength?_attach (ops : Operators) (op : Char) (ψ φ : Phrase) :
    (attach ops op ψ φ).strength? ops = φ.strength? ops ∨
      (attach ops op ψ φ).strength? ops = ops op := by
  fun_cases attach ops op ψ φ with
  | case1 op' l r hlt => exact .inl rfl
  | case2 op' l r hle => exact .inr rfl
  | case3 hφ => exact .inr rfl

theorem bindsRight_attach {t : Nat} (hs : ops op = some s) (ht : t < s)
    (hφ : φ.BindsRight ops t) : (attach ops op ψ φ).BindsRight ops t := by
  intro u hu
  rcases strength?_attach ops op ψ φ with hroot | hroot
  · exact hφ u (hroot ▸ hu)
  · rw [hroot, hs] at hu
    cases hu
    exact ht

theorem strength?_of_ne (hφ : ∀ op l r, φ ≠ .binary op l r) : φ.strength? ops = none := by
  cases φ with
  | binary op l r => exact absurd rfl (hφ op l r)
  | _ => rfl

/-- An operand behind a graded phrase goes where the strengths put it. -/
theorem Graded.attach (hφ : φ.Graded ops) (hs : ops op = some s) (hψ : ψ.Graded ops)
    (hn : ψ.strength? ops = none) : (attach ops op ψ φ).Graded ops := by
  fun_induction Phrase.attach ops op ψ φ with
  | case1 op' l r hlt ih =>
      obtain ⟨s', hs', hl, hr, hls, hrs⟩ := hφ
      rw [hs, hs', Option.getD_some, Option.getD_some] at hlt
      exact ⟨s', hs', hl, ih hr, hls, bindsRight_attach hs hlt hrs⟩
  | case2 op' l r hle =>
      obtain ⟨s', hs', hl, hr, hls, hrs⟩ := hφ
      rw [hs, hs', Option.getD_some, Option.getD_some] at hle
      refine ⟨s, hs, ⟨s', hs', hl, hr, hls, hrs⟩, hψ, ?_, bindsRight_of_none hn s⟩
      intro u hu
      rw [strength?, hs'] at hu
      cases hu
      exact Nat.le_of_not_lt hle
  | case3 φ hne =>
      exact ⟨s, hs, hφ, hψ, bindsLeft_of_none (strength?_of_ne hne) s, bindsRight_of_none hn s⟩

end Phrase

mutual

/-- **Every sentence is spelled by a graded phrase.** -/
theorem Sentence.exists_phrase {ops : Operators} {ts : List Token} :
    Sentence ops ts → ∃ φ : Phrase, φ.Graded ops ∧ φ.tokens = ts
  | .operand h => by
      obtain ⟨φ, hφ, -, rfl⟩ := h.exists_phrase
      exact ⟨φ, hφ, rfl⟩
  | .chain h hop h' => by
      obtain ⟨φ, hφ, rfl⟩ := h.exists_phrase
      obtain ⟨ψ, hψ, hn, rfl⟩ := h'.exists_phrase
      obtain ⟨s, hs⟩ := Option.isSome_iff_exists.mp hop
      exact ⟨_, hφ.attach hs hψ hn, Phrase.tokens_attach ops _ ψ φ⟩

theorem Operand.exists_phrase {ops : Operators} {ts : List Token} :
    Operand ops ts → ∃ φ : Phrase, φ.Graded ops ∧ φ.strength? ops = none ∧ φ.tokens = ts
  | .number v => ⟨.number v, trivial, rfl, by rw [Phrase.tokens]⟩
  | .var x => ⟨.var x, trivial, rfl, by rw [Phrase.tokens]⟩
  | .call f => ⟨.call f [], trivial, rfl, by rw [Phrase.tokens]⟩
  | .callWith f h => by
      obtain ⟨φ, φs, hφ, hφs, rfl⟩ := h.exists_phrases
      exact ⟨.call f (φ :: φs), ⟨hφ, hφs⟩, rfl, by simp [Phrase.tokens]⟩
  | .group h => by
      obtain ⟨φ, hφ, rfl⟩ := h.exists_phrase
      exact ⟨.group φ, hφ, rfl, by rw [Phrase.tokens]⟩

theorem Arguments.exists_phrases {ops : Operators} {ts : List Token} :
    Arguments ops ts → ∃ (φ : Phrase) (φs : List Phrase), φ.Graded ops ∧
      Phrase.AllGraded ops φs ∧ φ.tokens ++ Phrase.furtherTokens φs = ts
  | .last h => by
      obtain ⟨φ, hφ, rfl⟩ := h.exists_phrase
      exact ⟨φ, [], hφ, trivial, by simp [Phrase.furtherTokens]⟩
  | .more h h' => by
      obtain ⟨φ, hφ, rfl⟩ := h.exists_phrase
      obtain ⟨ψ, ψs, hψ, hψs, rfl⟩ := h'.exists_phrases
      exact ⟨φ, ψ :: ψs, hφ, ⟨hψ, hψs⟩, by simp [Phrase.furtherTokens]⟩

end

/-! ### How many brackets are open -/

/-- The most brackets that are open at a number or a name, if `opened` are open before the first
token.  Those that bracket an expression and those around arguments count alike. -/
def enclosure : (opened : Nat) → List Token → Nat
  | _, [] => 0
  | opened, .number _ :: ts => max opened (enclosure opened ts)
  | opened, .ident _ :: ts => max opened (enclosure opened ts)
  | opened, .char c :: ts =>
    if c = '(' then enclosure (opened + 1) ts
    else if c = ')' then enclosure (opened - 1) ts
    else enclosure opened ts
  | opened, _ :: ts => enclosure opened ts

theorem enclosure_operator {ops : Operators} {op : Char} {s : Nat} (hops : ops.Plain)
    (hs : ops op = some s) (n : Nat) (ts : List Token) :
    enclosure n (.char op :: ts) = enclosure n ts := by
  have hopening : op ≠ '(' := by
    rintro rfl
    rw [hops.opening] at hs
    cases hs
  have hclosing : op ≠ ')' := by
    rintro rfl
    rw [hops.closing] at hs
    cases hs
  rw [enclosure, if_neg hopening, if_neg hclosing]

theorem enclosure_open (n : Nat) (ts : List Token) :
    enclosure n (.char '(' :: ts) = enclosure (n + 1) ts := rfl

theorem enclosure_close (n : Nat) (ts : List Token) :
    enclosure (n + 1) (.char ')' :: ts) = enclosure n ts := rfl

theorem enclosure_comma (n : Nat) (ts : List Token) :
    enclosure n (.char ',' :: ts) = enclosure n ts := rfl

namespace Phrase

variable {ops : Operators}

mutual

/-- Around an operand of a phrase as many brackets are open as its nesting says. -/
theorem Graded.enclosure_tokens (hops : ops.Plain) (φ : Phrase) (h : φ.Graded ops) (n : Nat)
    (ts : List Token) :
    enclosure n (φ.tokens ++ ts) = max (n + φ.nesting) (enclosure n ts) := by
  cases φ with
  | number v => simp [tokens, nesting, enclosure]
  | var x => simp [tokens, nesting, enclosure]
  | binary op l r =>
      obtain ⟨s, hs, hl, hr, -, -⟩ := h
      rw [tokens, List.append_assoc, Graded.enclosure_tokens hops l hl, List.cons_append,
        enclosure_operator hops hs, Graded.enclosure_tokens hops r hr, nesting]
      omega
  | call f φs =>
      cases φs with
      | nil => simp [tokens, nesting, nestings, enclosure]
      | cons φ φs =>
          have harguments := AllGraded.enclosure_furtherTokens hops φs h.2 n (.char ')' :: ts)
          rw [enclosure_close] at harguments
          simp only [tokens, List.cons_append, List.append_assoc, enclosure, List.nil_append,
            if_true]
          rw [Graded.enclosure_tokens hops φ h.1, nesting, nestings]
          omega
  | group φ =>
      rw [tokens, List.append_assoc, List.cons_append, enclosure_open,
        Graded.enclosure_tokens hops φ h, List.singleton_append, enclosure_close, nesting]
      omega

theorem AllGraded.enclosure_furtherTokens (hops : ops.Plain) (φs : List Phrase)
    (h : AllGraded ops φs) (n : Nat) (ts : List Token) :
    max n (enclosure (n + 1) (furtherTokens φs ++ ts)) =
      max (n + nestings φs) (enclosure (n + 1) ts) := by
  cases φs with
  | nil => rw [furtherTokens, nestings, List.nil_append, Nat.add_zero n]
  | cons φ φs =>
      have hrest := AllGraded.enclosure_furtherTokens hops φs h.2 n ts
      rw [furtherTokens, List.cons_append, List.cons_append, enclosure_comma, List.append_assoc,
        Graded.enclosure_tokens hops φ h.1, nestings]
      omega

end

/-- A number in so many brackets. -/
def tower : Nat → Phrase
  | 0 => .number 1
  | k + 1 => .group (tower k)

theorem graded_tower (ops : Operators) (k : Nat) : (tower k).Graded ops := by
  induction k with
  | zero => trivial
  | succ k ih => exact ih

theorem nesting_tower (k : Nat) : (tower k).nesting = k := by
  induction k with
  | zero => rfl
  | succ k ih => rw [tower, nesting, ih]

theorem enclosure_tower (k : Nat) : enclosure 0 (tower k).tokens = k := by
  have h := (graded_tower .standard k).enclosure_tokens Operators.standard_plain _ 0 []
  rw [List.append_nil, nesting_tower, enclosure] at h
  omega

end Phrase

/-! ### Too many brackets -/

namespace Machine

variable {σ : Type} [ItemStream σ] {ops : Operators} {os : List Pending} {fs : List Frame}
  {φ l r : Phrase} {φs : List Phrase}

/-- The result is that an expression is nested too deeply. -/
def TooDeep (result : EStateM.Result ParseError (Parser σ) Expr) : Prop :=
  ∃ q, result = .error (.nestingTooDeep maxNesting) q

/-- Where as many brackets are open as may be, nothing is taken. -/
theorem tooDeep_of_full (p : Parser σ) (h : maxNesting ≤ fs.length) :
    TooDeep (run ⟨.start, os, fs⟩ p) :=
  ⟨p, run_of_fail (by simp [step, beginOperand, h])⟩

/-- The machine refuses the phrase wherever this would open too many brackets. -/
def Refuses (σ : Type) [ItemStream σ] (ops : Operators) (φ : Phrase) : Prop :=
  ∀ (p q : Parser σ) (os : List Pending) (fs : List Frame), p.operators = ops →
    p.Reads φ.tokens q → maxNesting ≤ fs.length + φ.nesting → Pending.Admits ops os φ →
    TooDeep (run ⟨.start, os, fs⟩ p)

/-- The machine refuses the phrases as the last arguments of a call wherever they would open too
many brackets. -/
def RefusesArguments (σ : Type) [ItemStream σ] (ops : Operators) (φ : Phrase) (φs : List Phrase) :
    Prop :=
  ∀ (p q : Parser σ) (f : String) (read : List Expr) (os : List Pending) (fs : List Frame),
    p.operators = ops → p.Reads (φ.tokens ++ Phrase.furtherTokens φs ++ [.char ')']) q →
    maxNesting ≤ fs.length + Phrase.nestings (φ :: φs) →
    TooDeep (run ⟨.start, [], ⟨.arguments f read, os⟩ :: fs⟩ p)

theorem refuses_of_nesting (h : φ.nesting = 0) : Refuses σ ops φ := by
  intro p q os fs ho hr hn ha
  rw [h] at hn
  exact tooDeep_of_full p hn

/-- A phrase is refused in its left operand, or that is taken and it is refused in the right one. -/
theorem Refuses.binary {op : Char} {s : Nat} (hops : ops.Plain) (hs : ops op = some s)
    (hl : Takes σ ops l) (hl' : Refuses σ ops l) (hr : Refuses σ ops r)
    (hls : l.BindsLeft ops s) (hrs : r.BindsRight ops s) : Refuses σ ops (.binary op l r) := by
  intro p q os fs ho hread hn ha
  have hb : Pending.Below s os := fun o h => ha o h s hs
  rw [Phrase.tokens] at hread
  rw [Phrase.nesting] at hn
  by_cases hdeep : maxNesting ≤ fs.length + l.nesting
  · obtain ⟨p₁, hreadl, -⟩ := hread.append_inv
    exact hl' p p₁ os fs ho hreadl hdeep fun o h t ht => Nat.lt_of_lt_of_le (hb o h) (hls t ht)
  · obtain ⟨p', ho', hreadr, hleft⟩ :=
      hl.left hops hs hls ho hread (Nat.lt_of_not_le hdeep) hb
    rw [hleft]
    refine hr p' q _ fs ho' hreadr (by omega) ?_
    intro o h
    cases h
    exact hrs

theorem Refuses.group (hφ : Refuses σ ops φ) : Refuses σ ops (.group φ) := by
  intro p q os fs ho hr hn ha
  by_cases hfull : maxNesting ≤ fs.length
  · exact tooDeep_of_full p hfull
  · rw [Phrase.tokens, List.cons_append] at hr
    obtain ⟨hc, p₁, hadv, ho₁, hr⟩ := hr.cons_inv
    obtain ⟨p₂, hr, -⟩ := hr.append_inv
    rw [Phrase.nesting] at hn
    rw [run_of_shift (step_open (Nat.lt_of_not_le hfull) hc) hadv]
    refine hφ p₁ p₂ [] _ (ho₁.trans ho) hr ?_ fun o h => by cases h
    rw [List.length_cons]
    omega

theorem Refuses.call (f : String) (h : RefusesArguments σ ops φ φs) :
    Refuses σ ops (.call f (φ :: φs)) := by
  intro p q os fs ho hr hn ha
  by_cases hfull : maxNesting ≤ fs.length
  · exact tooDeep_of_full p hfull
  · simp only [Phrase.tokens, List.cons_append] at hr
    obtain ⟨hc, p₁, hadv, ho₁, hr⟩ := hr.cons_inv
    obtain ⟨hc₁, p₂, hadv₁, ho₂, hr⟩ := hr.cons_inv
    have hclose : p₂.current ≠ .char ')' := by
      obtain ⟨t, ts, ht, hne⟩ := φ.tokens_eq_cons
      rw [ht] at hr
      rwa [hr.cons_inv.1]
    rw [run_of_shift (step_ident (Nat.lt_of_not_le hfull) hc) hadv,
      run_of_shift (step_name_open hc₁) hadv₁, run_congr (step_opened hclose)]
    exact h p₂ q f [] os fs (ho₂.trans (ho₁.trans ho)) hr hn

theorem Refuses.argument {p q : Parser σ} {f : String} {read : List Expr}
    (hφ : Refuses σ ops φ) (ho : p.operators = ops) (hr : p.Reads φ.tokens q)
    (hn : maxNesting ≤ fs.length + (φ.nesting + 1)) :
    TooDeep (run ⟨.start, [], ⟨.arguments f read, os⟩ :: fs⟩ p) := by
  refine hφ p q [] _ ho hr ?_ fun o h => by cases h
  rw [List.length_cons]
  omega

theorem RefusesArguments.last (hφ : Refuses σ ops φ) : RefusesArguments σ ops φ [] := by
  intro p q f read os fs ho hr hn
  rw [Phrase.furtherTokens, List.append_nil] at hr
  obtain ⟨p₁, hr, -⟩ := hr.append_inv
  rw [Phrase.nestings, Phrase.nestings] at hn
  exact hφ.argument ho hr (by omega)

/-- Arguments are refused in the first one, or that is taken and they are refused in the others. -/
theorem RefusesArguments.more {ψ : Phrase} {ψs : List Phrase} (hops : ops.Plain)
    (hφ : Takes σ ops φ) (hφ' : Refuses σ ops φ) (hψ : RefusesArguments σ ops ψ ψs) :
    RefusesArguments σ ops φ (ψ :: ψs) := by
  intro p q f read os fs ho hr hn
  rw [Phrase.furtherTokens, List.append_assoc] at hr
  obtain ⟨p₁, hr, hr'⟩ := hr.append_inv
  rw [Phrase.nestings] at hn
  by_cases hdeep : maxNesting ≤ fs.length + (φ.nesting + 1)
  · exact hφ'.argument ho hr hdeep
  · obtain ⟨hc, p₂, hadv, ho₂, hr'⟩ := hr'.cons_inv
    have ho₁ : p₁.operators = ops := hr.operators_eq.trans ho
    have hnone : ops.find? p₁.current = none := by rw [hc, Operators.find?_char hops.comma]
    rw [hφ.argument ho hr (Nat.lt_of_not_le hdeep) hnone (by simp [hc]),
      run_of_shift (step_arguments_comma (ho₁ ▸ hnone) hc) hadv]
    exact hψ p₂ q f _ os fs (ho₂.trans ho₁) hr' (by omega)

mutual

/-- **The machine refuses every graded phrase that opens too many brackets.** -/
theorem refuses_of_graded (hops : ops.Plain) (φ : Phrase) (h : φ.Graded ops) :
    Refuses σ ops φ := by
  cases φ with
  | number v => exact refuses_of_nesting rfl
  | var x => exact refuses_of_nesting rfl
  | binary op l r =>
      obtain ⟨s, hs, hl, hr, hls, hrs⟩ := h
      exact .binary hops hs (takes_of_graded hops l hl) (refuses_of_graded hops l hl)
        (refuses_of_graded hops r hr) hls hrs
  | call f φs =>
      cases φs with
      | nil => exact refuses_of_nesting rfl
      | cons φ φs =>
          exact .call f (refusesArguments_of_graded hops φs h.2 (takes_of_graded hops φ h.1)
            (refuses_of_graded hops φ h.1))
  | group φ => exact .group (refuses_of_graded hops φ h)

theorem refusesArguments_of_graded (hops : ops.Plain) (φs : List Phrase)
    (h : Phrase.AllGraded ops φs) {φ : Phrase} (hφ : Takes σ ops φ) (hφ' : Refuses σ ops φ) :
    RefusesArguments σ ops φ φs := by
  cases φs with
  | nil => exact .last hφ'
  | cons ψ ψs =>
      exact .more hops hφ hφ' (refusesArguments_of_graded hops ψs h.2
        (takes_of_graded hops ψ h.1) (refuses_of_graded hops ψ h.1))

end

end Machine

/-! ### The limit -/

namespace Parser

variable {σ : Type} [ItemStream σ] {p p₀ q : Parser σ} {t : Token} {ts : List Token}

/-- A sentence under the cursor is parsed or refused, as its brackets say. -/
theorem expression_of_sentence (hops : p.operators.Plain) (hts : Sentence p.operators ts)
    (hp : peek p = .ok t p₀) (hr : p₀.Reads ts q) (hq : p.operators.find? q.current = none)
    (hq' : q.current ≠ .char '(') :
    (enclosure 0 ts < maxNesting → ∃ e, expression p = .ok e q) ∧
    (maxNesting ≤ enclosure 0 ts →
      ∃ q', expression p = .error (.nestingTooDeep maxNesting) q') := by
  obtain ⟨φ, hφ, rfl⟩ := hts.exists_phrase
  have hdepth : enclosure 0 φ.tokens = φ.nesting := by
    simpa [enclosure] using hφ.enclosure_tokens hops φ 0 []
  rw [hdepth]
  refine ⟨fun hn => ⟨φ.expr, expression_of_reads hops hφ hn hp hr hq hq'⟩, fun hn => ?_⟩
  simp only [expression, bind, EStateM.bind, hp]
  have hadmits : Pending.Admits p.operators [] φ := fun o h => by cases h
  refine Machine.refuses_of_graded hops φ hφ p₀ q [] [] (operators_of_peek hp) hr ?_ hadmits
  simpa using hn

/-- The cursor passes tokens that stand in a list. -/
theorem exists_reads (ts : List Token) {rest : List Item} {t : Token} {p : Parser (List Item)}
    (hs : p.stream = ts.map .token ++ rest) (ht : (Pull.ofList rest).item = .token t) :
    ∃ q, p.Reads (p.current :: ts) q ∧ q.current = t := by
  induction ts generalizing p with
  | nil =>
      obtain rfl : p.stream = rest := by simpa using hs
      have ha : ∃ q, advance p = .ok () q ∧ q.current = t := by
        simp only [advance, ItemStream.next, ht]
        exact ⟨_, rfl, rfl⟩
      obtain ⟨q, ha, hq⟩ := ha
      exact ⟨q, .pass ha (.here q), hq⟩
  | cons u ts ih =>
      have ha : ∃ r : Parser (List Item), advance p = .ok () r ∧ r.current = u ∧
          r.stream = ts.map .token ++ rest := by
        simp only [advance, ItemStream.next, hs]
        exact ⟨_, rfl, rfl, rfl⟩
      obtain ⟨r, ha, hc, hr⟩ := ha
      obtain ⟨q, hreads, hq⟩ := ih hr
      exact ⟨q, .pass ha (hc ▸ hreads), hq⟩

/-- An expression cannot be parsed where the machine cannot begin. -/
theorem expression_of_fail {e : ParseError} (hp : peek p = .ok t p₀)
    (hs : ({} : Machine).step p₀.operators p₀.current = .fail e) : expression p = .error e p₀ := by
  simp only [expression, bind, EStateM.bind, hp]
  exact Machine.run_of_fail hs

/-- A parser has failed at a bracket that nothing has opened, and has then passed it. -/
theorem ask_closing (items : List Item) (t : Token) :
    ∃ q : Parser (List Item), [Request.expression, .next].foldl ask
        { stream := .token (.char ')') :: .token t :: items } = q ∧
      q.stream = items ∧ q.current = t ∧ q.primed = true ∧ q.operators = .standard := by
  have hfail := expression_of_fail (t := .char ')')
    (p := { stream := .token (.char ')') :: .token t :: items }) rfl rfl
  rw [List.foldl_cons, ask, Request.parse]
  simp only [Functor.map, EStateM.map, hfail]
  exact ⟨_, rfl, rfl, rfl, rfl, rfl⟩

/-- **The limit on nesting is kept, and nothing that fails wears it down.**  Whatever has been asked
of a parser, and whether it was done or not, no expression is left open: a descent counts none.  So
wherever a sentence of a table without brackets and commas stands under the cursor, before a token
that cannot go on with it, the sentence is parsed if at each of its operands fewer brackets and
argument lists are open than may be, and else it is refused as nested too deeply; as many as the
limit says are one too many. -/
theorem nesting_limited (s : σ) (requests : List Request) :
    let p : Parser σ := requests.foldl Parser.ask { stream := s }
    (∃ n, ∀ calls, n ≤ calls →
      requests.foldlM (Descent.ask calls) ⟨{ stream := s }, 0⟩ = some ⟨p, 0⟩) ∧
    ∀ (ts : List Token) (t : Token) (p₀ q : Parser σ), p.operators.Plain →
      Sentence p.operators ts → peek p = .ok t p₀ → p₀.Reads ts q →
      p.operators.find? q.current = none → q.current ≠ .char '(' →
      (enclosure 0 ts < maxNesting → ∃ e, expression p = .ok e q ∧
        ∃ n, ∀ calls, n ≤ calls →
          Descent.expression calls ⟨p, 0⟩ = some (.ok e, ⟨q, 0⟩)) ∧
      (maxNesting ≤ enclosure 0 ts → ∃ q', expression p = .error (.nestingTooDeep maxNesting) q' ∧
        ∃ n, ∀ calls, n ≤ calls →
          Descent.expression calls ⟨p, 0⟩ =
            some (.error (.nestingTooDeep maxNesting), ⟨q', 0⟩)) := by
  intro p
  have hfits : p.operators.Fits := fits_askAll requests Operators.standard_fits
  refine ⟨⟨_, fun calls hn => Descent.askAll_eq requests Operators.standard_fits hn⟩, ?_⟩
  intro ts t p₀ q hops hts hp hr hq hq'
  obtain ⟨hparsed, hrefused⟩ := expression_of_sentence hops hts hp hr hq hq'
  refine ⟨fun hn => ?_, fun hn => ?_⟩
  · obtain ⟨e, he⟩ := hparsed hn
    refine ⟨e, he, 3 * p.remaining + 2, fun calls hcalls => ?_⟩
    rw [Descent.expression_eq p hfits hcalls, Descent.lift, he]
  · obtain ⟨q', hq'⟩ := hrefused hn
    refine ⟨q', hq', 3 * p.remaining + 2, fun calls hcalls => ?_⟩
    rw [Descent.expression_eq p hfits hcalls, Descent.lift, hq']

/-- Behind a bracket that nothing has opened, 255 brackets may be open around a number and 256 may
not. -/
theorem nesting_limited_brackets :
    let p (k : Nat) : Parser (List Item) := [Request.expression, .next].foldl ask
      { stream := .token (.char ')') :: (Phrase.tower k).tokens.map .token }
    (∃ e q, expression (p 255) = .ok e q) ∧
      ∃ q, expression (p 256) = .error (.nestingTooDeep 256) q := by
  intro p
  have hp (k : Nat) : ∃ q, (p k).operators = .standard ∧ peek (p k) = .ok (p k).current (p k) ∧
      (p k).Reads (Phrase.tower k).tokens q ∧ q.current = .eof := by
    obtain ⟨t, ts, hts, -⟩ := (Phrase.tower k).tokens_eq_cons
    obtain ⟨p', hp', hstream, hcurrent, hprimed, hops⟩ := ask_closing (ts.map .token) t
    have hpk : p k = p' := by rw [← hp', ← List.map_cons, ← hts]
    rw [← List.append_nil (ts.map _)] at hstream
    obtain ⟨q, hread, hq⟩ := exists_reads ts hstream rfl
    rw [hpk]
    exact ⟨q, hops, peek_of_primed hprimed, hts ▸ hcurrent ▸ hread, hq⟩
  have hlimited (k : Nat) :
      (k < maxNesting → ∃ e q, expression (p k) = .ok e q) ∧
      (maxNesting ≤ k → ∃ q, expression (p k) = .error (.nestingTooDeep 256) q) := by
    obtain ⟨q, hops, hpeek, hread, hq⟩ := hp k
    have hplain : (p k).operators.Plain := by rw [hops]; exact Operators.standard_plain
    have hsentence : Sentence (p k).operators (Phrase.tower k).tokens :=
      (Phrase.graded_tower _ k).sentence
    obtain ⟨hparsed, hrefused⟩ := (nesting_limited _ _).2 _ _ _ q hplain hsentence hpeek hread
      (by rw [hops, hq]; rfl) (by simp [hq])
    rw [Phrase.enclosure_tower] at hparsed hrefused
    refine ⟨fun hk => ?_, fun hk => ?_⟩
    · obtain ⟨e, he, -⟩ := hparsed hk
      exact ⟨e, q, he⟩
    · obtain ⟨q', hq', -⟩ := hrefused hk
      exact ⟨q', hq'⟩
  exact ⟨(hlimited 255).1 (by decide), (hlimited 256).2 (by decide)⟩

end Parser

end Reckon
