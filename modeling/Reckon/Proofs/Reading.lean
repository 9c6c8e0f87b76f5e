import Reckon.Parser.Progress
import Reckon.Proofs.Phrase

/-!
# Proofs — Reading

What the machine has read.  `Machine.Read` relates its state to the tokens taken so far: an operand
at hand is a graded phrase, every waiting operator has a graded left operand and binds more tightly
than the one that waits before it in its chain, and every open bracket has its tokens before it.
A step that takes a token keeps this (`Machine.Read.step`), and a step that ends the expression
leaves one graded phrase that spells all that was taken (`Machine.Read.done`).

So an expression that is parsed has been spelled by a graded phrase
(`Parser.reads_of_expression`).
-/

namespace Reckon

namespace Parser

variable {σ : Type} [ItemStream σ]

/-- The cursor passes the tokens on its way from `p` to `q`. -/
inductive Reads : Parser σ → List Token → Parser σ → Prop where
  | here (p : Parser σ) : Reads p [] p
  | pass {p q r : Parser σ} {ts : List Token} (h : advance p = .ok () q) (t : Reads q ts r) :
      Reads p (p.current :: ts) r

theorem operators_of_advance {p q : Parser σ} (h : advance p = .ok () q) :
    q.operators = p.operators := by
  obtain ⟨t, -, rfl⟩ := advance_eq_ok h
  rfl

theorem operators_of_peek {p q : Parser σ} {t : Token} (h : peek p = .ok t q) :
    q.operators = p.operators := by
  cases hp : p.primed with
  | true => rw [peek_of_primed hp] at h; cases h; rfl
  | false =>
      rw [peek_of_not_primed hp] at h
      simp only [next, bind, EStateM.bind] at h
      cases ha : advance p with
      | error e r => rw [ha] at h; cases h
      | ok u r => rw [ha] at h; cases h; exact operators_of_advance ha

end Parser

/-! ### Errors and their tokens -/

/-- The error is about the token: it names it, it is a malformed lexeme in its place, or it does not
say. -/
def ParseError.About (t : Token) : ParseError → Prop
  | .expectedExpression found => found = t
  | .expectedCloseParen found => found = t
  | .expectedArgumentSeparator found => found = t
  | .expectedFunctionName found => found = t
  | .expectedPrototypeOpen found => found = t
  | .expectedPrototypeClose found => found = t
  | .lex _ => t = .eof
  | .nestingTooDeep _ => True

/-! ### Waiting operators -/

/-- The first of the waiting operators binds less tightly than `s`. -/
def Pending.Below (s : Nat) (os : List Pending) : Prop := ∀ o ∈ os.head?, o.strength < s

/-- The phrase can stand on the right of the first of the waiting operators. -/
def Pending.Admits (ops : Operators) (os : List Pending) (φ : Phrase) : Prop :=
  ∀ o ∈ os.head?, φ.BindsRight ops o.strength

/-- The operators wait behind the tokens. -/
inductive Waiting (ops : Operators) : List Pending → List Token → Prop where
  | nil : Waiting ops [] []
  | cons {os : List Pending} {ts : List Token} {φ : Phrase} {op : Char} {s : Nat}
      (h : Waiting ops os ts) (hs : ops op = some s) (hφ : φ.Graded ops) (hl : φ.BindsLeft ops s)
      (hb : Pending.Below s os) :
      Waiting ops (⟨φ.expr, op, s⟩ :: os) (ts ++ φ.tokens ++ [.char op])

theorem Phrase.bindsLeft_of_none {ops : Operators} {φ : Phrase} (h : φ.strength? ops = none)
    (s : Nat) : φ.BindsLeft ops s := fun t ht => by rw [h] at ht; cases ht

theorem Phrase.bindsRight_of_none {ops : Operators} {φ : Phrase} (h : φ.strength? ops = none)
    (s : Nat) : φ.BindsRight ops s := fun t ht => by rw [h] at ht; cases ht

/-- Closing the operators that bind at least as tightly as `s` makes one graded phrase of them. -/
theorem Waiting.close {ops : Operators} {os : List Pending} {ts : List Token} {φ : Phrase} {s : Nat}
    (h : Waiting ops os ts) (hφ : φ.Graded ops) (hr : Pending.Admits ops os φ)
    (hl : φ.BindsLeft ops s) :
    ∃ (ψ : Phrase) (os' : List Pending) (ts' : List Token),
      Pending.close s os φ.expr = (ψ.expr, os') ∧ Waiting ops os' ts' ∧ ψ.Graded ops ∧
      ψ.BindsLeft ops s ∧ Pending.Below s os' ∧ ts' ++ ψ.tokens = ts ++ φ.tokens := by
  induction h generalizing φ with
  | nil => exact ⟨φ, [], [], rfl, .nil, hφ, hl, by simp [Pending.Below], rfl⟩
  | @cons os ts χ op t h ht hχ hχl hb ih =>
      by_cases hst : s ≤ t
      -- closed, the operator is what the next one waiting has on its right
      · have hrt : φ.BindsRight ops t := hr ⟨χ.expr, op, t⟩ rfl
        have hψ : (Phrase.binary op χ φ).Graded ops := ⟨t, ht, hχ, hφ, hχl, hrt⟩
        have hroot : ∀ u, (Phrase.binary op χ φ).strength? ops = some u → u = t := by
          intro u hu
          rw [Phrase.strength?, ht] at hu
          exact (Option.some.inj hu).symm
        obtain ⟨ψ, os', ts', hc, hw, hg, hbl, hbe, hts⟩ := ih hψ
          (fun o ho u hu => by rw [hroot u hu]; exact hb o ho)
          (fun u hu => by rw [hroot u hu]; exact hst)
        refine ⟨ψ, os', ts', ?_, hw, hg, hbl, hbe, ?_⟩
        · rw [Pending.close, if_pos hst]
          exact hc
        · rw [hts]
          simp [Phrase.tokens]
      · refine ⟨φ, _, _, ?_, .cons h ht hχ hχl hb, hφ, hl, ?_, rfl⟩
        · rw [Pending.close, if_neg hst]
        · intro o ho
          obtain rfl : _ = o := by simpa using ho
          exact Nat.lt_of_not_le hst

theorem Operators.find?_eq_some {ops : Operators} {t : Token} {op : Char} {s : Nat}
    (h : ops.find? t = some (op, s)) : t = .char op ∧ ops op = some s := by
  cases t with
  | char c =>
      obtain ⟨s', hs, he⟩ := Option.map_eq_some_iff.mp h
      cases he
      exact ⟨rfl, hs⟩
  | _ => cases h

theorem Pending.close_zero (os : List Pending) (e : Expr) :
    Pending.close 0 os e = (Pending.closeAll os e, []) := by
  induction os generalizing e with
  | nil => rfl
  | cons o os ih =>
      simp only [Pending.close, Nat.zero_le, if_true, ih, Pending.closeAll, List.foldl]

/-- Closing all of them makes one graded phrase of the chain. -/
theorem Waiting.closeAll {ops : Operators} {os : List Pending} {ts : List Token} {φ : Phrase}
    (h : Waiting ops os ts) (hφ : φ.Graded ops) (hr : Pending.Admits ops os φ) :
    ∃ ψ : Phrase, Pending.closeAll os φ.expr = ψ.expr ∧ ψ.Graded ops ∧
      ψ.tokens = ts ++ φ.tokens := by
  obtain ⟨ψ, os', ts', hc, hw, hg, -, -, hts⟩ := h.close hφ hr (s := 0) fun _ _ => Nat.zero_le _
  rw [Pending.close_zero] at hc
  obtain ⟨hψ, rfl⟩ := Prod.mk.inj hc
  cases hw
  exact ⟨ψ, hψ, hg, hts⟩

/-! ### Open brackets -/

/-- The brackets are open behind the tokens. -/
inductive Opened (ops : Operators) : List Frame → List Token → Prop where
  | nil : Opened ops [] []
  | group {fs : List Frame} {os : List Pending} {ts us : List Token} (h : Opened ops fs ts)
      (hw : Waiting ops os us) : Opened ops (⟨.group, os⟩ :: fs) (ts ++ us ++ [.char '('])
  | arguments {fs : List Frame} {os : List Pending} {ts us : List Token} (f : String)
      (φs : List Phrase) (h : Opened ops fs ts) (hw : Waiting ops os us)
      (hφ : Phrase.AllGraded ops φs) :
      Opened ops (⟨.arguments f (Phrase.exprs φs).reverse, os⟩ :: fs)
        (ts ++ us ++ Phrase.callTokens f φs)

/-- What has just been read was read from the tokens. -/
inductive Control.Read (ops : Operators) : Control → List Token → Prop where
  | start : Read ops .start []
  | name (x : String) : Read ops (.name x) [.ident x]
  | opened (f : String) : Read ops (.opened f) [.ident f, .char '(']
  | operand {φ : Phrase} (hφ : φ.Graded ops) (hn : φ.strength? ops = none) :
      Read ops (.operand φ.expr) φ.tokens

namespace Machine

/-- The machine has read the tokens. -/
inductive Read (ops : Operators) : Machine → List Token → Prop where
  | mk {c : Control} {os : List Pending} {fs : List Frame} {ts us vs : List Token}
      (hf : Opened ops fs ts) (hw : Waiting ops os us) (hc : c.Read ops vs) :
      Read ops ⟨c, os, fs⟩ (ts ++ us ++ vs)

variable {ops : Operators} {os : List Pending} {fs : List Frame} {ts us : List Token} {t : Token}
variable {m m' : Machine}

theorem beginOperand_read (hf : Opened ops fs ts) (hw : Waiting ops os us)
    (h : beginOperand os fs t = .shift m') : Read ops m' (ts ++ us ++ [t]) := by
  unfold beginOperand at h
  split at h
  · cases h
  · split at h
    · next v =>
        cases h
        exact .mk hf hw (.operand (φ := .number v) trivial rfl)
    · next x =>
        cases h
        exact .mk hf hw (.name x)
    · cases h
      rw [← List.append_nil (ts ++ us ++ _), ← List.append_nil (ts ++ us ++ _)]
      exact .mk (.group hf hw) .nil .start
    · cases h

theorem endChain_read {φ : Phrase} (hf : Opened ops fs ts) (hφ : φ.Graded ops)
    (h : endChain φ.expr fs t = .shift m') : Read ops m' (ts ++ φ.tokens ++ [t]) := by
  cases hf with
  | nil => cases h
  | @group fs os ts us hf hw =>
      simp only [endChain] at h
      split at h
      · next ht =>
          cases h
          subst ht
          have := Read.mk hf hw (.operand (φ := .group φ) hφ rfl)
          simpa [Phrase.tokens, Phrase.expr] using this
      · cases h
  | @arguments fs os ts us f φs hf hw hs =>
      have hall : Phrase.AllGraded ops (φs ++ [φ]) :=
        Phrase.allGraded_append.mpr ⟨hs, hφ, trivial⟩
      have hexprs : φ.expr :: (Phrase.exprs φs).reverse = (Phrase.exprs (φs ++ [φ])).reverse := by
        simp [Phrase.exprs_append, Phrase.exprs]
      simp only [endChain, hexprs] at h
      split at h
      · next ht =>
          cases h
          subst ht
          have := Read.mk hf hw (.operand (φ := .call f (φs ++ [φ])) hall rfl)
          rw [Phrase.tokens_call_append] at this
          simpa [Phrase.expr] using this
      · split at h
        · next ht =>
            cases h
            subst ht
            have := Read.mk (.arguments f (φs ++ [φ]) hf hw hall) .nil .start
            rw [Phrase.callTokens_append] at this
            simpa using this
        · cases h

theorem endOperand_read {φ : Phrase} (hf : Opened ops fs ts) (hw : Waiting ops os us)
    (hφ : φ.Graded ops) (hn : φ.strength? ops = none)
    (h : endOperand ops φ.expr os fs t = .shift m') :
    Read ops m' (ts ++ us ++ φ.tokens ++ [t]) := by
  have hr : Pending.Admits ops os φ := fun o _ => Phrase.bindsRight_of_none hn _
  cases ht : ops.find? t with
  | some found =>
      obtain ⟨op, s⟩ := found
      obtain ⟨rfl, hs⟩ := Operators.find?_eq_some ht
      obtain ⟨ψ, os', us', hc, hw', hψ, hl, hb, hus⟩ :=
        hw.close hφ hr (Phrase.bindsLeft_of_none hn s)
      simp only [endOperand, ht, hc] at h
      cases h
      have := Read.mk hf (.cons hw' hs hψ hl hb) .start
      rw [hus] at this
      simpa using this
  | none =>
      obtain ⟨ψ, hc, hψ, hψt⟩ := hw.closeAll hφ hr
      simp only [endOperand, ht, hc] at h
      have := endChain_read hf hψ h
      rw [hψt] at this
      simpa using this

/-- A token that is taken has been read. -/
theorem Read.step (hm : Read ops m ts) (h : m.step ops t = .shift m') :
    Read ops m' (ts ++ [t]) := by
  obtain ⟨hf, hw, hc⟩ := hm
  cases hc with
  | start => simpa using beginOperand_read hf hw h
  | name x =>
      simp only [Machine.step] at h
      split at h
      · next ht =>
          cases h
          subst ht
          simpa using Read.mk hf hw (.opened x)
      · exact endOperand_read (φ := .var x) hf hw trivial rfl h
  | opened f =>
      simp only [Machine.step] at h
      split at h
      · next ht =>
          cases h
          subst ht
          simpa [Phrase.tokens, Phrase.expr, Phrase.exprs] using
            Read.mk hf hw (.operand (φ := .call f []) trivial rfl)
      · simpa [Phrase.callTokens] using beginOperand_read (.arguments f [] hf hw trivial) .nil h
  | operand hφ hn => exact endOperand_read hf hw hφ hn h

theorem beginOperand_ne_done (os : List Pending) (fs : List Frame) (t : Token) (e : Expr) :
    beginOperand os fs t ≠ .done e := by
  unfold beginOperand
  split
  · simp
  · split <;> simp

/-- An operand is refused inside too many brackets, or at the token. -/
theorem beginOperand_fail {e : ParseError} (h : beginOperand os fs t = .fail e) :
    (e = .nestingTooDeep maxNesting ∧ maxNesting ≤ fs.length) ∨ e = .expectedExpression t := by
  unfold beginOperand at h
  split at h
  · next hle =>
      cases h
      exact .inl ⟨rfl, hle⟩
  · split at h
    · cases h
    · cases h
    · cases h
    · cases h
      exact .inr rfl

/-- What follows an operand is refused at the token. -/
theorem endOperand_fail {e' : Expr} {e : ParseError} (h : endOperand ops e' os fs t = .fail e) :
    e = .expectedCloseParen t ∨ e = .expectedArgumentSeparator t := by
  unfold endOperand at h
  split at h
  · cases h
  · unfold endChain at h
    split at h
    · cases h
    · split at h
      · cases h
      · cases h
        exact .inl rfl
    · split at h
      · cases h
      · split at h
        · cases h
        · cases h
          exact .inr rfl

theorem about_of_beginOperand {e : ParseError} (h : beginOperand os fs t = .fail e) :
    e.About t := by
  rcases beginOperand_fail h with ⟨rfl, -⟩ | rfl
  · trivial
  · rfl

theorem about_of_endOperand {e' : Expr} {e : ParseError}
    (h : endOperand ops e' os fs t = .fail e) : e.About t := by
  rcases endOperand_fail h with rfl | rfl
  · rfl
  · rfl

/-- The machine fails at the token under the cursor. -/
theorem about_of_fail {e : ParseError} (h : m.step ops t = .fail e) : e.About t := by
  unfold step at h
  split at h
  · exact about_of_beginOperand h
  · split at h
    · cases h
    · exact about_of_endOperand h
  · split at h
    · cases h
    · exact about_of_beginOperand h
  · exact about_of_endOperand h

theorem endOperand_done {φ : Phrase} {e : Expr} (hf : Opened ops fs ts) (hw : Waiting ops os us)
    (hφ : φ.Graded ops) (hn : φ.strength? ops = none)
    (h : endOperand ops φ.expr os fs t = .done e) :
    ∃ ψ : Phrase, ψ.Graded ops ∧ ψ.expr = e ∧ ψ.tokens = ts ++ us ++ φ.tokens ∧
      ops.find? t = none := by
  cases ht : ops.find? t with
  | some found => simp only [endOperand, ht] at h; cases h
  | none =>
      obtain ⟨ψ, hc, hψ, hψt⟩ := hw.closeAll hφ fun o _ => Phrase.bindsRight_of_none hn _
      simp only [endOperand, ht, hc] at h
      cases hf with
      | nil =>
          cases h
          exact ⟨ψ, hψ, rfl, by simpa using hψt, rfl⟩
      | group hf hw =>
          simp only [endChain] at h
          split at h <;> cases h
      | arguments f φs hf hw hs =>
          simp only [endChain] at h
          split at h
          · cases h
          · split at h <;> cases h

/-- An expression that ends before a token has been spelled by a graded phrase, and the token is no
operator. -/
theorem Read.done {e : Expr} (hm : Read ops m ts) (h : m.step ops t = .done e) :
    ∃ φ : Phrase, φ.Graded ops ∧ φ.expr = e ∧ φ.tokens = ts ∧ ops.find? t = none := by
  obtain ⟨hf, hw, hc⟩ := hm
  cases hc with
  | start => exact absurd h (beginOperand_ne_done _ _ _ _)
  | name x =>
      simp only [Machine.step] at h
      split at h
      · cases h
      · exact endOperand_done (φ := .var x) hf hw trivial rfl h
  | opened f =>
      simp only [Machine.step] at h
      split at h
      · cases h
      · exact absurd h (beginOperand_ne_done _ _ _ _)
  | operand hφ hn => exact endOperand_done hf hw hφ hn h

variable {σ : Type} [ItemStream σ]

/-- A run that ends has read a graded phrase, of which the machine had read the beginning. -/
theorem Read.run {p q : Parser σ} {e : Expr} (hm : Read p.operators m ts)
    (h : m.run p = .ok e q) :
    ∃ (φ : Phrase) (us : List Token), φ.Graded p.operators ∧ φ.expr = e ∧ φ.tokens = ts ++ us ∧
      p.Reads us q ∧ p.operators.find? q.current = none := by
  fun_induction Machine.run m p generalizing ts with
  | case1 m p e' hs =>
      cases h
      obtain ⟨φ, hφ, he, ht, hn⟩ := hm.done hs
      exact ⟨φ, [], hφ, he, by simpa using ht, .here _, hn⟩
  | case2 m p e' hs => cases h
  | case3 m p m' hs u p' ha ih =>
      have hops := Parser.operators_of_advance ha
      have hm' := hm.step hs
      rw [← hops] at hm'
      obtain ⟨φ, us, hφ, he, ht, hr, hn⟩ := ih hm' h
      rw [hops] at hφ hn
      exact ⟨φ, p.current :: us, hφ, he, by simpa using ht, .pass ha hr, hn⟩
  | case4 m p m' hs e' p' ha => cases h

end Machine

/-- **An expression that is parsed has been spelled by a graded phrase**, and the cursor stands
behind it, on a token that is no operator. -/
theorem Parser.reads_of_expression {σ : Type} [ItemStream σ] {p q : Parser σ} {e : Expr}
    (h : expression p = .ok e q) :
    ∃ (t : Token) (p₀ : Parser σ) (φ : Phrase), peek p = .ok t p₀ ∧ p₀.Reads φ.tokens q ∧
      φ.expr = e ∧ φ.Graded p.operators ∧ p.operators.find? q.current = none := by
  simp only [expression, bind, EStateM.bind] at h
  cases hp : peek p with
  | error e' p' => rw [hp] at h; cases h
  | ok t p₀ =>
      rw [hp] at h
      have hops := operators_of_peek hp
      obtain ⟨φ, us, hφ, he, ht, hr, hn⟩ := Machine.Read.run (.mk .nil .nil .start) h
      rw [hops] at hφ hn
      obtain rfl : φ.tokens = us := by simpa using ht
      exact ⟨t, p₀, φ, rfl, hr, he, hφ, hn⟩

end Reckon
