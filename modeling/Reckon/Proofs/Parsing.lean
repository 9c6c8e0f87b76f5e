import Reckon.Proofs.Descent

/-!
# Proofs — Parsing

The parser and the phrases of a table of operators.

* `Parser.expression_sound`: what is parsed has been spelled by a graded phrase, which is a sentence
  of the grammar; the cursor stands behind it.  Parsing by descent gives the same and does not
  overflow.
* `Machine.takes_of_graded`: wherever the machine wants an operand, it takes a graded phrase.
* `Parser.expression_complete`: a graded phrase in which no more brackets are open than may be is
  parsed to the expression it stands for, whatever follows that cannot go on with it.

Every expression over the table has a graded phrase (`Expr.phrase`), the one with no more brackets
than the strengths require.
-/

namespace Reckon

/-! ### Brackets where the strengths require them -/

namespace Phrase

instance (ops : Operators) (s : Nat) (φ : Phrase) : Decidable (φ.BindsLeft ops s) :=
  decidable_of_iff (∀ t ∈ φ.strength? ops, s ≤ t) Iff.rfl

instance (ops : Operators) (s : Nat) (φ : Phrase) : Decidable (φ.BindsRight ops s) :=
  decidable_of_iff (∀ t ∈ φ.strength? ops, s < t) Iff.rfl

/-- The phrase, in brackets unless it fits without them. -/
def bracketUnless (fits : Prop) [Decidable fits] (φ : Phrase) : Phrase :=
  if fits then φ else .group φ

section

variable {ops : Operators} {s : Nat} {φ : Phrase}

theorem expr_bracketUnless (fits : Prop) [Decidable fits] (φ : Phrase) :
    (φ.bracketUnless fits).expr = φ.expr := by
  by_cases h : fits
  · rw [bracketUnless, if_pos h]
  · rw [bracketUnless, if_neg h, expr]

theorem Graded.bracketUnless (h : φ.Graded ops) (fits : Prop) [Decidable fits] :
    (φ.bracketUnless fits).Graded ops := by
  by_cases hf : fits
  · rw [Phrase.bracketUnless, if_pos hf]
    exact h
  · rw [Phrase.bracketUnless, if_neg hf]
    exact h

theorem bindsLeft_bracketUnless : (φ.bracketUnless (φ.BindsLeft ops s)).BindsLeft ops s := by
  by_cases h : φ.BindsLeft ops s
  · rw [bracketUnless, if_pos h]
    exact h
  · rw [bracketUnless, if_neg h]
    exact bindsLeft_of_none rfl s

theorem bindsRight_bracketUnless : (φ.bracketUnless (φ.BindsRight ops s)).BindsRight ops s := by
  by_cases h : φ.BindsRight ops s
  · rw [bracketUnless, if_pos h]
    exact h
  · rw [bracketUnless, if_neg h]
    exact bindsRight_of_none rfl s

end

end Phrase

namespace Expr

mutual

/-- The expression as it is written with no more brackets than the strengths require. -/
def phrase (ops : Operators) : Expr → Phrase
  | .number v => .number v
  | .var x => .var x
  | .binary op l r =>
    let s := (ops op).getD 0
    .binary op ((l.phrase ops).bracketUnless ((l.phrase ops).BindsLeft ops s))
      ((r.phrase ops).bracketUnless ((r.phrase ops).BindsRight ops s))
  | .call f args => .call f (phrases ops args)

/-- Several expressions as they are written. -/
def phrases (ops : Operators) : List Expr → List Phrase
  | [] => []
  | e :: es => e.phrase ops :: phrases ops es

end

mutual

/-- All operators of the expression are in the table. -/
def Over (ops : Operators) : Expr → Prop
  | .number _ => True
  | .var _ => True
  | .binary op l r => (ops op).isSome ∧ l.Over ops ∧ r.Over ops
  | .call _ args => AllOver ops args

/-- All operators of the expressions are in the table. -/
def AllOver (ops : Operators) : List Expr → Prop
  | [] => True
  | e :: es => e.Over ops ∧ AllOver ops es

end

mutual

theorem expr_phrase (ops : Operators) (e : Expr) : (e.phrase ops).expr = e := by
  cases e with
  | number v => rfl
  | var x => rfl
  | binary op l r =>
      simp only [phrase, Phrase.expr, Phrase.expr_bracketUnless, expr_phrase ops l,
        expr_phrase ops r]
  | call f args => simp only [phrase, Phrase.expr, exprs_phrases ops args]

theorem exprs_phrases (ops : Operators) (es : List Expr) :
    Phrase.exprs (phrases ops es) = es := by
  cases es with
  | nil => rfl
  | cons e es => simp only [phrases, Phrase.exprs, expr_phrase ops e, exprs_phrases ops es]

end

mutual

/-- An expression over the table is written as a graded phrase. -/
theorem Over.graded {ops : Operators} (e : Expr) (h : e.Over ops) :
    (e.phrase ops).Graded ops := by
  cases e with
  | number v => trivial
  | var x => trivial
  | binary op l r =>
      obtain ⟨hop, hl, hr⟩ := h
      obtain ⟨s, hs⟩ := Option.isSome_iff_exists.mp hop
      simp only [phrase, hs, Option.getD_some]
      exact ⟨s, hs, (Over.graded l hl).bracketUnless _, (Over.graded r hr).bracketUnless _,
        Phrase.bindsLeft_bracketUnless, Phrase.bindsRight_bracketUnless⟩
  | call f args => exact AllOver.graded args h

theorem AllOver.graded {ops : Operators} (es : List Expr) (h : AllOver ops es) :
    Phrase.AllGraded ops (phrases ops es) := by
  cases es with
  | nil => trivial
  | cons e es => exact ⟨Over.graded e h.1, AllOver.graded es h.2⟩

end

end Expr

/-! ### Tokens one after the other -/

namespace Parser.Reads

variable {σ : Type} [ItemStream σ] {p q : Parser σ} {t : Token} {ts us : List Token}

theorem cons_inv (h : p.Reads (t :: ts) q) :
    p.current = t ∧ ∃ r, advance p = .ok () r ∧ r.operators = p.operators ∧ r.Reads ts q := by
  cases h with
  | pass ha h => exact ⟨rfl, _, ha, operators_of_advance ha, h⟩

theorem append_inv (h : p.Reads (ts ++ us) q) : ∃ r, p.Reads ts r ∧ r.Reads us q := by
  induction ts generalizing p with
  | nil => exact ⟨p, .here p, h⟩
  | cons t ts ih =>
      cases h with
      | pass ha h =>
          obtain ⟨r, hr, hq⟩ := ih h
          exact ⟨r, .pass ha hr, hq⟩

theorem eq_of_nil (h : p.Reads [] q) : p = q := by
  cases h
  rfl

theorem operators_eq (h : p.Reads ts q) : q.operators = p.operators := by
  induction h with
  | here p => rfl
  | pass ha h ih => exact ih.trans (operators_of_advance ha)

end Parser.Reads

/-- A phrase does not begin with a bracket that closes. -/
theorem Phrase.tokens_eq_cons (φ : Phrase) :
    ∃ (t : Token) (ts : List Token), φ.tokens = t :: ts ∧ t ≠ .char ')' := by
  cases φ with
  | number v => exact ⟨.number v, [], by rw [tokens], by simp⟩
  | var x => exact ⟨.ident x, [], by rw [tokens], by simp⟩
  | binary op l r =>
      obtain ⟨t, ts, hl, ht⟩ := tokens_eq_cons l
      exact ⟨t, ts ++ .char op :: r.tokens, by rw [tokens, hl, List.cons_append], ht⟩
  | call f φs =>
      cases φs with
      | nil => exact ⟨.ident f, _, by rw [tokens], by simp⟩
      | cons φ φs => exact ⟨.ident f, _, by rw [tokens]; rfl, by simp⟩
  | group φ => exact ⟨.char '(', _, by rw [tokens]; rfl, by simp⟩

/-! ### The machine at a phrase -/

/-- Brackets and commas are no operators of the table. -/
structure Operators.Plain (ops : Operators) : Prop where
  opening : ops '(' = none
  closing : ops ')' = none
  comma : ops ',' = none

theorem Operators.find?_char {ops : Operators} {c : Char} (h : ops c = none) :
    ops.find? (.char c) = none := by
  simp [find?, h]

namespace Machine

variable {σ : Type} [ItemStream σ] {ops : Operators} {os : List Pending} {fs : List Frame}

/-- The phrase can be followed by the token: no operator there takes its last operand from it, and
no bracket makes a call of a name. -/
def Follows (ops : Operators) (φ : Phrase) (t : Token) : Prop :=
  t ≠ .char '(' ∧ ∀ op s, ops.find? t = some (op, s) → φ.BindsLeft ops s

theorem follows_of_none {φ : Phrase} {t : Token} (h : ops.find? t = none) (ht : t ≠ .char '(') :
    Follows ops φ t :=
  ⟨ht, fun op s hs => by rw [h] at hs; cases hs⟩

/-- The machine takes the phrase, wherever it stands: from where an operand is wanted it comes to
where it has one, with the same operators waiting and the same brackets open. -/
def Takes (σ : Type) [ItemStream σ] (ops : Operators) (φ : Phrase) : Prop :=
  ∀ (p q : Parser σ) (os : List Pending) (fs : List Frame), p.operators = ops →
    p.Reads φ.tokens q → fs.length + φ.nesting < maxNesting → Pending.Admits ops os φ →
    Follows ops φ q.current → run ⟨.start, os, fs⟩ p = run ⟨.operand φ.expr, os, fs⟩ q

/-- The machine takes the phrases as the last arguments of a call. -/
def TakesArguments (σ : Type) [ItemStream σ] (ops : Operators) (φ : Phrase) (φs : List Phrase) :
    Prop :=
  ∀ (p q : Parser σ) (f : String) (read : List Expr) (os : List Pending) (fs : List Frame),
    p.operators = ops → p.Reads (φ.tokens ++ Phrase.furtherTokens φs ++ [.char ')']) q →
    fs.length + Phrase.nestings (φ :: φs) < maxNesting →
    run ⟨.start, [], ⟨.arguments f read, os⟩ :: fs⟩ p =
      run ⟨.operand (.call f (read.reverse ++ Phrase.exprs (φ :: φs))), os, fs⟩ q

variable {φ l r : Phrase} {φs : List Phrase}

theorem takes_number (v : Float) : Takes σ ops (.number v) := by
  intro p q os fs ho hr hn ha hf
  have hd : fs.length < maxNesting := Nat.lt_of_le_of_lt (Nat.le_add_right _ _) hn
  rw [Phrase.tokens] at hr
  obtain ⟨hc, p₁, hadv, -, hr⟩ := hr.cons_inv
  obtain rfl := hr.eq_of_nil
  exact run_of_shift (step_number hd hc) hadv

theorem takes_var (x : String) : Takes σ ops (.var x) := by
  intro p q os fs ho hr hn ha hf
  have hd : fs.length < maxNesting := Nat.lt_of_le_of_lt (Nat.le_add_right _ _) hn
  rw [Phrase.tokens] at hr
  obtain ⟨hc, p₁, hadv, -, hr⟩ := hr.cons_inv
  obtain rfl := hr.eq_of_nil
  rw [run_of_shift (step_ident hd hc) hadv]
  exact run_congr (step_name hf.1)

/-- The left operand is taken before the operator, which then waits for the right one. -/
theorem Takes.left {op : Char} {s : Nat} {p q : Parser σ} {us : List Token} (hops : ops.Plain)
    (hs : ops op = some s) (hl : Takes σ ops l) (hls : l.BindsLeft ops s) (ho : p.operators = ops)
    (hr : p.Reads (l.tokens ++ .char op :: us) q) (hn : fs.length + l.nesting < maxNesting)
    (hb : Pending.Below s os) :
    ∃ p', p'.operators = ops ∧ p'.Reads us q ∧
      run ⟨.start, os, fs⟩ p = run ⟨.start, ⟨l.expr, op, s⟩ :: os, fs⟩ p' := by
  obtain ⟨p₁, hrl, hr⟩ := hr.append_inv
  obtain ⟨hc, p₂, hadv, ho₂, hr⟩ := hr.cons_inv
  have ho₁ : p₁.operators = ops := hrl.operators_eq.trans ho
  have hfind : ops.find? p₁.current = some (op, s) := by
    rw [hc, Operators.find?, hs]
    rfl
  -- behind the left operand stands the operator, which can only take it over
  have hleft : run ⟨.start, os, fs⟩ p = run ⟨.operand l.expr, os, fs⟩ p₁ := by
    refine hl p p₁ os fs ho hrl hn ?_ ⟨?_, ?_⟩
    · intro o h t ht
      exact Nat.lt_of_lt_of_le (hb o h) (hls t ht)
    · rw [hc]
      rintro ⟨⟩
      rw [hops.opening] at hs
      cases hs
    · intro op' s' h
      rw [hfind] at h
      cases h
      exact hls
  rw [← ho₁] at hfind
  refine ⟨p₂, ho₂.trans ho₁, hr, ?_⟩
  rw [hleft, run_of_shift (step_operand_of_below hfind hb) hadv]

/-- The right operand is taken behind the operator, which then has both. -/
theorem Takes.binary {op : Char} {s : Nat} (hops : ops.Plain) (hs : ops op = some s)
    (hl : Takes σ ops l) (hr : Takes σ ops r) (hls : l.BindsLeft ops s)
    (hrs : r.BindsRight ops s) : Takes σ ops (.binary op l r) := by
  intro p q os fs ho hread hn ha hf
  rw [Phrase.tokens] at hread
  rw [Phrase.nesting] at hn
  have hnl : fs.length + l.nesting < maxNesting := by omega
  have hb : Pending.Below s os := fun o h => ha o h s hs
  obtain ⟨p', ho', hreadr, hleft⟩ := hl.left hops hs hls ho hread hnl hb
  have hroot : ∀ op' s', ops.find? q.current = some (op', s') → s' ≤ s := by
    intro op' s' h
    exact hf.2 op' s' h s hs
  -- behind the right one stands what follows the whole phrase
  have hright : run ⟨.start, ⟨l.expr, op, s⟩ :: os, fs⟩ p' =
      run ⟨.operand r.expr, ⟨l.expr, op, s⟩ :: os, fs⟩ q := by
    refine hr p' q _ fs ho' hreadr (by omega) ?_ ⟨hf.1, ?_⟩
    · intro o h
      cases h
      exact hrs
    · intro op' s' h t ht
      exact Nat.le_trans (hroot op' s' h) (Nat.le_of_lt (hrs t ht))
  rw [hleft, hright]
  refine run_congr (step_operand_cons ?_)
  rw [hreadr.operators_eq, ho']
  exact hroot

theorem Takes.group (hops : ops.Plain) (hφ : Takes σ ops φ) : Takes σ ops (.group φ) := by
  intro p q os fs ho hr hn ha hf
  have hd : fs.length < maxNesting := Nat.lt_of_le_of_lt (Nat.le_add_right _ _) hn
  rw [Phrase.tokens, List.cons_append] at hr
  obtain ⟨hc, p₁, hadv, ho₁, hr⟩ := hr.cons_inv
  obtain ⟨p₂, hrφ, hr'⟩ := hr.append_inv
  obtain ⟨hc₂, p₃, hadv₂, -, hr'⟩ := hr'.cons_inv
  obtain rfl := hr'.eq_of_nil
  have ho₂ : p₂.operators = ops := hrφ.operators_eq.trans (ho₁.trans ho)
  have hnone : ops.find? p₂.current = none := by rw [hc₂, Operators.find?_char hops.closing]
  rw [Phrase.nesting] at hn
  have hinner := hφ p₁ p₂ [] (⟨.group, os⟩ :: fs) (ho₁.trans ho) hrφ
    (by rw [List.length_cons]; omega) (fun o h => by cases h)
    (follows_of_none hnone (by simp [hc₂]))
  rw [run_of_shift (step_open hd hc) hadv, hinner]
  exact run_of_shift (step_group_close (ho₂ ▸ hnone) hc₂) hadv₂

theorem takes_call_nil (f : String) : Takes σ ops (.call f []) := by
  intro p q os fs ho hr hn ha hf
  have hd : fs.length < maxNesting := Nat.lt_of_le_of_lt (Nat.le_add_right _ _) hn
  rw [Phrase.tokens] at hr
  obtain ⟨hc, p₁, hadv, -, hr⟩ := hr.cons_inv
  obtain ⟨hc₁, p₂, hadv₁, -, hr⟩ := hr.cons_inv
  obtain ⟨hc₂, p₃, hadv₂, -, hr⟩ := hr.cons_inv
  obtain rfl := hr.eq_of_nil
  rw [run_of_shift (step_ident hd hc) hadv, run_of_shift (step_name_open hc₁) hadv₁]
  exact run_of_shift (step_opened_close hc₂) hadv₂

theorem Takes.call (f : String) (h : TakesArguments σ ops φ φs) :
    Takes σ ops (.call f (φ :: φs)) := by
  intro p q os fs ho hr hn ha hf
  have hd : fs.length < maxNesting := Nat.lt_of_le_of_lt (Nat.le_add_right _ _) hn
  simp only [Phrase.tokens, List.cons_append] at hr
  obtain ⟨hc, p₁, hadv, ho₁, hr⟩ := hr.cons_inv
  obtain ⟨hc₁, p₂, hadv₁, ho₂, hr⟩ := hr.cons_inv
  have hclose : p₂.current ≠ .char ')' := by
    obtain ⟨t, ts, ht, hne⟩ := φ.tokens_eq_cons
    rw [ht] at hr
    rwa [hr.cons_inv.1]
  rw [run_of_shift (step_ident hd hc) hadv, run_of_shift (step_name_open hc₁) hadv₁,
    run_congr (step_opened hclose)]
  exact h p₂ q f [] os fs (ho₂.trans (ho₁.trans ho)) hr hn

/-- An argument is taken up to the token behind it, if that neither goes on with it nor makes a call
of it. -/
theorem Takes.argument {p p₁ : Parser σ} {f : String} {read : List Expr} (hφ : Takes σ ops φ)
    (ho : p.operators = ops) (hr : p.Reads φ.tokens p₁)
    (hn : fs.length + (φ.nesting + 1) < maxNesting)
    (hnone : ops.find? p₁.current = none) (hopen : p₁.current ≠ .char '(') :
    run ⟨.start, [], ⟨.arguments f read, os⟩ :: fs⟩ p =
      run ⟨.operand φ.expr, [], ⟨.arguments f read, os⟩ :: fs⟩ p₁ := by
  refine hφ p p₁ [] _ ho hr ?_ ?_ (follows_of_none hnone hopen)
  · rw [List.length_cons]
    omega
  · intro o h
    cases h

theorem TakesArguments.last (hops : ops.Plain) (hφ : Takes σ ops φ) :
    TakesArguments σ ops φ [] := by
  intro p q f read os fs ho hr hn
  rw [Phrase.furtherTokens, List.append_nil] at hr
  obtain ⟨p₁, hrφ, hr'⟩ := hr.append_inv
  obtain ⟨hc, p₂, hadv, -, hr'⟩ := hr'.cons_inv
  obtain rfl := hr'.eq_of_nil
  have ho₁ : p₁.operators = ops := hrφ.operators_eq.trans ho
  have hnone : ops.find? p₁.current = none := by rw [hc, Operators.find?_char hops.closing]
  rw [Phrase.nestings] at hn
  rw [hφ.argument ho hrφ (by omega) hnone (by simp [hc]),
    run_of_shift (step_arguments_close (ho₁ ▸ hnone) hc) hadv]
  simp [Phrase.exprs]

theorem TakesArguments.more {ψ : Phrase} {ψs : List Phrase} (hops : ops.Plain) (hφ : Takes σ ops φ)
    (hψ : TakesArguments σ ops ψ ψs) : TakesArguments σ ops φ (ψ :: ψs) := by
  intro p q f read os fs ho hr hn
  rw [Phrase.furtherTokens, List.append_assoc] at hr
  obtain ⟨p₁, hr, hr'⟩ := hr.append_inv
  obtain ⟨hc, p₂, hadv, ho₂, hr'⟩ := hr'.cons_inv
  have ho₁ : p₁.operators = ops := hr.operators_eq.trans ho
  have hnone : ops.find? p₁.current = none := by rw [hc, Operators.find?_char hops.comma]
  rw [Phrase.nestings] at hn
  have hrest := hψ p₂ q f (φ.expr :: read) os fs (ho₂.trans ho₁) hr' (by omega)
  rw [hφ.argument ho hr (by omega) hnone (by simp [hc]),
    run_of_shift (step_arguments_comma (ho₁ ▸ hnone) hc) hadv, hrest]
  simp [Phrase.exprs]

mutual

/-- The machine takes every graded phrase. -/
theorem takes_of_graded (hops : ops.Plain) (φ : Phrase) (h : φ.Graded ops) : Takes σ ops φ := by
  cases φ with
  | number v => exact takes_number v
  | var x => exact takes_var x
  | binary op l r =>
      obtain ⟨s, hs, hl, hr, hls, hrs⟩ := h
      exact .binary hops hs (takes_of_graded hops l hl) (takes_of_graded hops r hr) hls hrs
  | call f φs =>
      cases φs with
      | nil => exact takes_call_nil f
      | cons φ φs =>
          exact .call f (takesArguments_of_graded hops φs h.2 (takes_of_graded hops φ h.1))
  | group φ => exact .group hops (takes_of_graded hops φ h)

theorem takesArguments_of_graded (hops : ops.Plain) (φs : List Phrase)
    (h : Phrase.AllGraded ops φs) {φ : Phrase} (hφ : Takes σ ops φ) :
    TakesArguments σ ops φ φs := by
  cases φs with
  | nil => exact .last hops hφ
  | cons ψ ψs =>
      exact .more hops hφ (takesArguments_of_graded hops ψs h.2 (takes_of_graded hops ψ h.1))

end

end Machine

/-! ### Both ways -/

theorem Operators.standard_fits : Operators.standard.Fits := by
  intro c s h
  unfold standard at h
  split at h <;> cases h <;> decide

theorem Operators.standard_plain : Operators.standard.Plain := ⟨rfl, rfl, rfl⟩

namespace Parser

variable {σ : Type} [ItemStream σ]

/-- A graded phrase under the cursor is parsed. -/
theorem expression_of_reads {p p₀ q : Parser σ} {t : Token} {φ : Phrase}
    (hops : p.operators.Plain) (hφ : φ.Graded p.operators) (hn : φ.nesting < maxNesting)
    (hp : peek p = .ok t p₀) (hr : p₀.Reads φ.tokens q) (hq : p.operators.find? q.current = none)
    (hq' : q.current ≠ .char '(') : expression p = .ok φ.expr q := by
  have ho₀ := operators_of_peek hp
  have hrun := Machine.takes_of_graded hops φ hφ p₀ q [] [] ho₀ hr (by simpa using hn)
    (fun o h => by cases h) (Machine.follows_of_none hq hq')
  simp only [expression, bind, EStateM.bind, hp]
  rw [hrun]
  refine Machine.run_of_done (Machine.step_operand_of_none ?_)
  rwa [hr.operators_eq, ho₀]

/-- **What is parsed is a sentence, grouped by the strengths.**  The tokens passed are a sentence of
the grammar, spelled by a graded phrase that stands for the expression, and the cursor stands on the
first token behind them, which is no operator.  No chain can be graded in two ways.  A descent that
is allowed enough calls gives the same result, whatever it is, and no strength overflows. -/
theorem expression_sound (p : Parser σ) (hf : p.operators.Fits) :
    (∀ (e : Expr) (q : Parser σ), expression p = .ok e q →
      ∃ (t : Token) (p₀ : Parser σ) (φ : Phrase), peek p = .ok t p₀ ∧ p₀.Reads φ.tokens q ∧
        Sentence p.operators φ.tokens ∧ φ.expr = e ∧ φ.Graded p.operators ∧
        p.operators.find? q.current = none) ∧
    (∀ φ ψ : Phrase, φ.Graded p.operators → ψ.Graded p.operators → φ.chain = ψ.chain → φ = ψ) ∧
    ∃ n, ∀ calls, n ≤ calls → Descent.expression calls ⟨p, 0⟩ ≠ none ∧
      Descent.expression calls ⟨p, 0⟩ = Descent.lift expression ⟨p, 0⟩ := by
  refine ⟨?_, fun φ ψ => Phrase.Graded.eq_of_chain, 3 * p.remaining + 2, ?_⟩
  · intro e q h
    obtain ⟨t, p₀, φ, hp, hr, he, hφ, hq⟩ := reads_of_expression h
    exact ⟨t, p₀, φ, hp, hr, Phrase.Graded.sentence φ hφ, he, hφ, hq⟩
  · intro calls hn
    have hdescent := Descent.expression_eq p hf hn
    exact ⟨hdescent ▸ Descent.lift_ne_none _ _, hdescent⟩

/-- `a + b * c` is parsed, and as what. -/
theorem expression_sound_sum :
    let p : Parser (List Item) :=
      { stream := [.ident "a", .char '+', .ident "b", .char '*', .ident "c"].map .token }
    let e : Expr := .binary '+' (.var "a") (.binary '*' (.var "b") (.var "c"))
    p.operators.Fits ∧
    (∃ (q p₀ : Parser (List Item)) (φ : Phrase), expression p = .ok e q ∧
      p₀.Reads φ.tokens q ∧ Sentence p.operators φ.tokens ∧ φ.expr = e ∧ φ.Graded p.operators ∧
      p.operators.find? q.current = none) ∧
    ∃ n, ∀ calls, n ≤ calls → Descent.expression calls ⟨p, 0⟩ ≠ none := by
  intro p e
  have hφ : (e.phrase p.operators).Graded p.operators :=
    Expr.Over.graded e ⟨rfl, trivial, rfl, trivial, trivial⟩
  have hparse := expression_of_reads (p := p) Operators.standard_plain hφ (by decide) rfl
    (.pass rfl (.pass rfl (.pass rfl (.pass rfl (.pass rfl (.here _)))))) rfl (by decide)
  have hsound := expression_sound p Operators.standard_fits
  obtain ⟨t, p₀, φ, -, hr, hs, he, hg, hq⟩ := hsound.1 _ _ hparse
  obtain ⟨n, hn⟩ := hsound.2.2
  exact ⟨Operators.standard_fits, ⟨_, p₀, φ, hparse, hr, hs, he, hg, hq⟩, n,
    fun calls h => (hn calls h).1⟩

/-- **Every way of writing an expression is parsed to it.**  An expression over the table has a
graded phrase; and any graded phrase that stands for it, however many brackets it has beyond those
the strengths require, is parsed to it if around none of its operands too many are open.  The cursor
then stands on the token behind the phrase, and no expression is open. -/
theorem expression_complete {ops : Operators} (hf : ops.Fits) (hops : ops.Plain) (e : Expr)
    (he : e.Over ops) :
    ((e.phrase ops).Graded ops ∧ (e.phrase ops).expr = e) ∧
    ∀ φ : Phrase, φ.Graded ops → φ.expr = e → φ.nesting ≤ maxNesting - 1 →
      ∀ (p p₀ q : Parser σ) (t : Token), p.operators = ops → peek p = .ok t p₀ →
        p₀.Reads φ.tokens q → ops.find? q.current = none → q.current ≠ .char '(' →
        expression p = .ok e q ∧ ∃ n, ∀ calls, n ≤ calls →
          Descent.expression calls ⟨p, 0⟩ = some (.ok e, ⟨q, 0⟩) := by
  refine ⟨⟨Expr.Over.graded e he, Expr.expr_phrase ops e⟩, ?_⟩
  rintro φ hφ rfl hn p p₀ q t rfl hp hr hq hq'
  have hlt : φ.nesting < maxNesting := Nat.lt_of_le_of_lt hn (by decide)
  have hparse := expression_of_reads hops hφ hlt hp hr hq hq'
  refine ⟨hparse, 3 * p.remaining + 2, ?_⟩
  intro calls hn'
  rw [Descent.expression_eq p hf hn', Descent.lift, hparse]

/-- `((a) + b) * c` before a semicolon and a malformed number. -/
theorem expression_complete_product :
    let p : Parser (List Item) :=
      { stream := [.char '(', .char '(', .ident "a", .char ')', .char '+', .ident "b", .char ')',
          .char '*', .ident "c", .char ';'].map .token ++ [.malformed (.invalidNumber "1.2.3")] }
    let e : Expr := .binary '*' (.binary '+' (.var "a") (.var "b")) (.var "c")
    ∃ q : Parser (List Item), q.current = .char ';' ∧ expression p = .ok e q ∧
      ∃ n, ∀ calls, n ≤ calls →
        Descent.expression calls ⟨p, 0⟩ = some (.ok e, ⟨q, 0⟩) := by
  intro p e
  let φ : Phrase :=
    .binary '*' (.group (.binary '+' (.group (.var "a")) (.var "b"))) (.var "c")
  have hφ : φ.Graded .standard :=
    ⟨40, rfl, ⟨20, rfl, trivial, trivial, Phrase.bindsLeft_of_none rfl _,
      Phrase.bindsRight_of_none rfl _⟩, trivial, Phrase.bindsLeft_of_none rfl _,
      Phrase.bindsRight_of_none rfl _⟩
  have he : e.Over .standard := ⟨rfl, ⟨rfl, trivial, trivial⟩, trivial⟩
  obtain ⟨p₀, hp, q, hr, hq⟩ : ∃ p₀ : Parser (List Item), peek p = .ok (.char '(') p₀ ∧
      ∃ q, p₀.Reads φ.tokens q ∧ q.current = .char ';' :=
    ⟨_, rfl, _, .pass rfl (.pass rfl (.pass rfl (.pass rfl (.pass rfl (.pass rfl (.pass rfl
      (.pass rfl (.pass rfl (.here _))))))))), rfl⟩
  exact ⟨q, hq, (expression_complete Operators.standard_fits Operators.standard_plain e he).2 φ hφ
    rfl (by decide) p p₀ q _ rfl hp hr (by rw [hq]; rfl) (by simp [hq])⟩

end Parser

end Reckon
