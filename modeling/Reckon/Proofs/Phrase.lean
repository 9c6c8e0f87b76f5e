import Reckon.Parser.Expression

/-!
# Proofs — Phrase

Expressions as they are written.  A phrase is an expression with its brackets; it spells its tokens
(`Phrase.tokens`) and stands for the expression without them (`Phrase.expr`).

The operators of a phrase that no bracket parts form a chain (`Phrase.chain`).  A phrase is *graded*
when in every chain the left operand of an operator binds at least as tightly as the operator and
the right operand binds more tightly.  A chain can be graded in one way only
(`Phrase.Graded.eq_of_chain`).

`Sentence` is the grammar of token lists, with no regard to strengths; a graded phrase spells a
sentence (`Phrase.Graded.sentence`).
-/

namespace Reckon

/-- An expression as it is written. -/
inductive Phrase where
  | number (value : Float)
  | var (name : String)
  | binary (op : Char) (left right : Phrase)
  | call (callee : String) (args : List Phrase)
  /-- a phrase in brackets -/
  | group (inner : Phrase)

namespace Phrase

mutual

/-- The expression the phrase stands for. -/
def expr : Phrase → Expr
  | .number v => .number v
  | .var x => .var x
  | .binary op l r => .binary op l.expr r.expr
  | .call f args => .call f (exprs args)
  | .group φ => φ.expr

/-- The expressions several phrases stand for. -/
def exprs : List Phrase → List Expr
  | [] => []
  | φ :: φs => φ.expr :: exprs φs

end

mutual

/-- The tokens that spell the phrase. -/
def tokens : Phrase → List Token
  | .number v => [.number v]
  | .var x => [.ident x]
  | .binary op l r => l.tokens ++ .char op :: r.tokens
  | .call f [] => [.ident f, .char '(', .char ')']
  | .call f (φ :: φs) => .ident f :: .char '(' :: φ.tokens ++ furtherTokens φs ++ [.char ')']
  | .group φ => .char '(' :: φ.tokens ++ [.char ')']

/-- The tokens of the arguments behind the first one. -/
def furtherTokens : List Phrase → List Token
  | [] => []
  | φ :: φs => .char ',' :: φ.tokens ++ furtherTokens φs

end

/-- The strength of the operator the phrase hangs from, if it hangs from one. -/
def strength? (ops : Operators) : Phrase → Option Nat
  | .binary op _ _ => ops op
  | _ => none

/-- The phrase can be the left operand of an operator of the strength. -/
def BindsLeft (ops : Operators) (s : Nat) (φ : Phrase) : Prop :=
  ∀ t, φ.strength? ops = some t → s ≤ t

/-- The phrase can be the right operand of an operator of the strength. -/
def BindsRight (ops : Operators) (s : Nat) (φ : Phrase) : Prop :=
  ∀ t, φ.strength? ops = some t → s < t

mutual

/-- Every operator of the phrase has a strength, its left operand binds at least as tightly, and its
right operand binds more tightly. -/
def Graded (ops : Operators) : Phrase → Prop
  | .number _ => True
  | .var _ => True
  | .binary op l r =>
    ∃ s, ops op = some s ∧ l.Graded ops ∧ r.Graded ops ∧ l.BindsLeft ops s ∧ r.BindsRight ops s
  | .call _ args => AllGraded ops args
  | .group φ => φ.Graded ops

/-- Every one of the phrases is graded. -/
def AllGraded (ops : Operators) : List Phrase → Prop
  | [] => True
  | φ :: φs => φ.Graded ops ∧ AllGraded ops φs

end

mutual

/-- The most brackets and argument lists that are open around an operand. -/
def nesting : Phrase → Nat
  | .number _ => 0
  | .var _ => 0
  | .binary _ l r => max l.nesting r.nesting
  | .call _ args => nestings args
  | .group φ => φ.nesting + 1

/-- The most brackets and argument lists that are open around an operand of an argument. -/
def nestings : List Phrase → Nat
  | [] => 0
  | φ :: φs => max (φ.nesting + 1) (nestings φs)

end

/-! ### Arguments, read one after the other -/

theorem exprs_append (φs ψs : List Phrase) : exprs (φs ++ ψs) = exprs φs ++ exprs ψs := by
  induction φs with
  | nil => simp [exprs]
  | cons φ φs ih => simp [exprs, ih]

theorem furtherTokens_append (φs ψs : List Phrase) :
    furtherTokens (φs ++ ψs) = furtherTokens φs ++ furtherTokens ψs := by
  induction φs with
  | nil => simp [furtherTokens]
  | cons φ φs ih => simp [furtherTokens, ih]

theorem allGraded_append {ops : Operators} {φs ψs : List Phrase} :
    AllGraded ops (φs ++ ψs) ↔ AllGraded ops φs ∧ AllGraded ops ψs := by
  induction φs with
  | nil => simp [AllGraded]
  | cons φ φs ih => simp [AllGraded, ih, and_assoc]

/-- A call up to the point where its next argument begins. -/
def callTokens (f : String) : List Phrase → List Token
  | [] => [.ident f, .char '(']
  | φ :: φs => .ident f :: .char '(' :: φ.tokens ++ furtherTokens φs ++ [.char ',']

theorem callTokens_append (f : String) (φs : List Phrase) (φ : Phrase) :
    callTokens f (φs ++ [φ]) = callTokens f φs ++ φ.tokens ++ [.char ','] := by
  cases φs with
  | nil => simp [callTokens, furtherTokens]
  | cons ψ ψs => simp [callTokens, furtherTokens_append, furtherTokens]

theorem tokens_call_append (f : String) (φs : List Phrase) (φ : Phrase) :
    (call f (φs ++ [φ])).tokens = callTokens f φs ++ φ.tokens ++ [.char ')'] := by
  cases φs with
  | nil => simp [tokens, callTokens, furtherTokens]
  | cons ψ ψs => simp [tokens, callTokens, furtherTokens_append, furtherTokens]

/-! ### Chains -/

/-- The chain of the phrase: its first operand, and the others with the operators before them. -/
def chain : Phrase → Phrase × List (Char × Phrase)
  | .binary op l r => (l.chain.1, l.chain.2 ++ (op, r.chain.1) :: r.chain.2)
  | φ => (φ, [])

theorem chain_eq_of_nil {φ : Phrase} (h : φ.chain.2 = []) : φ.chain.1 = φ := by
  cases φ with
  | binary op l r => simp [chain] at h
  | _ => rfl

/-- In a graded chain every operator binds at least as tightly as the one the phrase hangs from. -/
theorem Graded.le_of_mem_chain {ops : Operators} {φ : Phrase} {s : Nat} (h : φ.Graded ops)
    (hs : φ.BindsLeft ops s) : ∀ link ∈ φ.chain.2, ∃ t, ops link.1 = some t ∧ s ≤ t := by
  intro link hm
  fun_induction chain φ generalizing s with
  | case1 op l r ihl ihr =>
      obtain ⟨t, ht, hl, hr, hlt, hrt⟩ := h
      have hst : s ≤ t := hs t ht
      rcases List.mem_append.mp hm with hm | hm
      · exact ihl hl (fun u hu => Nat.le_trans hst (hlt u hu)) hm
      · rcases List.mem_cons.mp hm with rfl | hm
        · exact ⟨t, ht, hst⟩
        · exact ihr hr (fun u hu => Nat.le_trans hst (Nat.le_of_lt (hrt u hu))) hm
  | case2 φ hφ => cases hm

theorem Graded.lt_of_mem_chain {ops : Operators} {φ : Phrase} {s : Nat} (h : φ.Graded ops)
    (hs : φ.BindsRight ops s) : ∀ link ∈ φ.chain.2, ∃ t, ops link.1 = some t ∧ s < t :=
  h.le_of_mem_chain (s := s + 1) hs

/-- The operator a graded phrase hangs from is the last of the loosest ones of its chain, so it
stands in the chain at one place only. -/
theorem Graded.link_unique {ops : Operators} {s s' : Nat} {op op' : Char} {φ φ' : Phrase}
    {as as' bs bs' : List (Char × Phrase)} (hs : ops op = some s) (hs' : ops op' = some s')
    (ha : ∀ link ∈ as, ∃ t, ops link.1 = some t ∧ s ≤ t)
    (hb : ∀ link ∈ bs, ∃ t, ops link.1 = some t ∧ s < t)
    (ha' : ∀ link ∈ as', ∃ t, ops link.1 = some t ∧ s' ≤ t)
    (hb' : ∀ link ∈ bs', ∃ t, ops link.1 = some t ∧ s' < t)
    (h : as ++ (op, φ) :: bs = as' ++ (op', φ') :: bs') :
    as = as' ∧ op = op' ∧ φ = φ' ∧ bs = bs' := by
  rcases List.append_eq_append_iff.mp h with ⟨cs, rfl, hc⟩ | ⟨cs, rfl, hc⟩
  · cases cs with
    | nil => simpa [and_assoc] using hc
    | cons link cs =>
        -- the second place lies behind the first one, so it binds more tightly and not as tightly
        rw [List.cons_append, List.cons.injEq] at hc
        obtain ⟨rfl, rfl⟩ := hc
        obtain ⟨t, ht, hlt⟩ := hb (op', φ') (by simp)
        obtain ⟨u, hu, hle⟩ := ha' (op, φ) (by simp)
        rw [hs', Option.some.injEq] at ht
        rw [hs, Option.some.injEq] at hu
        omega
  · cases cs with
    | nil => simpa [eq_comm, and_assoc] using hc
    | cons link cs =>
        rw [List.cons_append, List.cons.injEq] at hc
        obtain ⟨rfl, rfl⟩ := hc
        obtain ⟨t, ht, hlt⟩ := hb' (op, φ) (by simp)
        obtain ⟨u, hu, hle⟩ := ha (op', φ') (by simp)
        rw [hs, Option.some.injEq] at ht
        rw [hs', Option.some.injEq] at hu
        omega

/-- **A chain can be graded in one way only.** -/
theorem Graded.eq_of_chain {ops : Operators} {φ ψ : Phrase} (hφ : φ.Graded ops)
    (hψ : ψ.Graded ops) (h : φ.chain = ψ.chain) : φ = ψ := by
  fun_induction chain φ generalizing ψ with
  | case1 op l r ihl ihr =>
      cases ψ with
      | binary op' l' r' =>
          obtain ⟨s, hs, hl, hr, hls, hrs⟩ := hφ
          obtain ⟨s', hs', hl', hr', hls', hrs'⟩ := hψ
          obtain ⟨h₁, h₂⟩ := Prod.mk.inj h
          obtain ⟨ha, rfl, hf, hb⟩ := link_unique hs hs' (hl.le_of_mem_chain hls)
            (hr.lt_of_mem_chain hrs) (hl'.le_of_mem_chain hls') (hr'.lt_of_mem_chain hrs') h₂
          rw [ihl hl hl' (Prod.ext h₁ ha), ihr hr hr' (Prod.ext hf hb)]
      | _ => simp [chain] at h
  | case2 φ hb =>
      have hn : ψ.chain.2 = [] := (congrArg Prod.snd h).symm
      rw [← chain_eq_of_nil hn]
      exact congrArg Prod.fst h

end Phrase

/-! ### The grammar -/

mutual

/-- The tokens spell operands with operators between them. -/
inductive Sentence (ops : Operators) : List Token → Prop where
  | operand {ts : List Token} (h : Operand ops ts) : Sentence ops ts
  | chain {ts us : List Token} {op : Char} (h : Sentence ops ts) (hop : (ops op).isSome)
      (h' : Operand ops us) : Sentence ops (ts ++ .char op :: us)

/-- The tokens spell an operand. -/
inductive Operand (ops : Operators) : List Token → Prop where
  | number (v : Float) : Operand ops [.number v]
  | var (x : String) : Operand ops [.ident x]
  | call (f : String) : Operand ops [.ident f, .char '(', .char ')']
  | callWith (f : String) {ts : List Token} (h : Arguments ops ts) :
      Operand ops (.ident f :: .char '(' :: ts ++ [.char ')'])
  | group {ts : List Token} (h : Sentence ops ts) : Operand ops (.char '(' :: ts ++ [.char ')'])

/-- The tokens spell one or more sentences with commas between them. -/
inductive Arguments (ops : Operators) : List Token → Prop where
  | last {ts : List Token} (h : Sentence ops ts) : Arguments ops ts
  | more {ts us : List Token} (h : Sentence ops ts) (h' : Arguments ops us) :
      Arguments ops (ts ++ .char ',' :: us)

end

/-- Sentences with an operator between them are a sentence. -/
theorem Sentence.append {ops : Operators} {ts : List Token} {op : Char} (hts : Sentence ops ts)
    (hop : (ops op).isSome) :
    ∀ {us : List Token}, Sentence ops us → Sentence ops (ts ++ .char op :: us)
  | _, .operand h => .chain hts hop h
  | _, .chain h hop' h' => by
      rw [← List.cons_append, ← List.append_assoc]
      exact .chain (hts.append hop h) hop' h'

namespace Phrase

mutual

/-- A graded phrase spells a sentence. -/
theorem Graded.sentence {ops : Operators} (φ : Phrase) (h : φ.Graded ops) :
    Sentence ops φ.tokens := by
  cases φ with
  | number v => rw [tokens]; exact .operand (.number v)
  | var x => rw [tokens]; exact .operand (.var x)
  | binary op l r =>
      obtain ⟨s, hs, hl, hr, -, -⟩ := h
      rw [tokens]
      exact (Graded.sentence l hl).append (by simp [hs]) (Graded.sentence r hr)
  | call f φs =>
      cases φs with
      | nil => rw [tokens]; exact .operand (.call f)
      | cons φ φs =>
          rw [tokens]
          exact .operand (.callWith f (AllGraded.arguments φs h.2 (Graded.sentence φ h.1)))
  | group φ => rw [tokens]; exact .operand (.group (Graded.sentence φ h))

/-- Graded arguments behind a sentence. -/
theorem AllGraded.arguments {ops : Operators} (φs : List Phrase) (h : AllGraded ops φs)
    {ts : List Token} (hts : Sentence ops ts) : Arguments ops (ts ++ furtherTokens φs) := by
  cases φs with
  | nil => rw [furtherTokens, List.append_nil]; exact .last hts
  | cons φ φs =>
      rw [furtherTokens]
      exact .more hts (AllGraded.arguments φs h.2 (Graded.sentence φ h.1))

end

end Phrase

end Reckon
