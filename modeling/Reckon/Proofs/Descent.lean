import Reckon.Proofs.Reading

/-!
# Proofs — Descent

Parsing by descent.  An expression is an operand and the operators behind it; `climb` folds them in
as long as they bind at least as tightly as it is told, and for the right operand of an operator
climbs on with what binds more tightly.  The number of expressions that are open is counted and kept
below a limit.  Strengths have 32 bits: going on from the greatest one to the next would overflow.

A descent is allowed so many calls below one another; one that needs more, or that overflows, stops
short.  None stops short when it is allowed enough of them, and then the machine, in one loop, does
what the descent does by recursion (`Descent.expression_eq`).
-/

namespace Reckon

/-- A parser, and how many expressions are open. -/
structure Descent (σ : Type) where
  parser : Parser σ
  depth : Nat

/-- Work of a descent. -/
abbrev DescentM (σ : Type) := ExceptT ParseError (StateT (Descent σ) Option)

namespace Descent

variable {σ : Type} [ItemStream σ]

/-- Work of the parser, at any depth. -/
def lift {α : Type} (m : ParseM σ α) : DescentM σ α := fun d =>
  match m d.parser with
  | .ok a p => some (.ok a, { d with parser := p })
  | .error e p => some (.error e, { d with parser := p })

/-- The operator under the cursor, with its strength. -/
def operator : DescentM σ (Option (Char × Nat)) := do
  let t ← lift Parser.peek
  return (← get).parser.operators.find? t

/-- The strength after the given one, which overflows behind the greatest. -/
def tighter (s : Nat) : DescentM σ Nat := fun d =>
  if s + 1 < UInt32.size then some (.ok (s + 1), d) else none

/-- Work with one more expression open, unless too many are.  Whatever comes of it, the expression
is closed afterwards. -/
def nested {α : Type} (work : DescentM σ α) : DescentM σ α := fun d =>
  if maxNesting ≤ d.depth then some (.error (.nestingTooDeep maxNesting), d)
  else match work { d with depth := d.depth + 1 } with
    | none => none
    | some (result, d) => some (result, { d with depth := d.depth - 1 })

/-- No more calls are allowed. -/
def stop {α : Type} : DescentM σ α := fun _ => none

mutual

/-- Parse an operand. -/
def operand : (calls : Nat) → DescentM σ Expr
  | 0 => stop
  | calls + 1 => do
    match ← lift Parser.peek with
    | .number v => do
      let _ ← lift Parser.take
      return .number v
    | .ident x => do
      let _ ← lift Parser.take
      let t ← lift Parser.peek
      if t = .char '(' then do
        lift Parser.advance
        let t ← lift Parser.peek
        if t = .char ')' then do
          lift Parser.advance
          return .call x []
        else arguments calls x []
      else return .var x
    | t =>
      if t = .char '(' then do
        lift Parser.advance
        let e ← expression calls
        let t ← lift Parser.peek
        if t = .char ')' then do
          lift Parser.advance
          return e
        else throw (.expectedCloseParen t)
      else throw (.expectedExpression t)

/-- Parse the arguments of a call behind those read, which are given with the last one first. -/
def arguments : (calls : Nat) → (callee : String) → (read : List Expr) → DescentM σ Expr
  | 0, _, _ => stop
  | calls + 1, callee, read => do
    let e ← expression calls
    let t ← lift Parser.peek
    if t = .char ')' then do
      lift Parser.advance
      return .call callee (e :: read).reverse
    else if t = .char ',' then do
      lift Parser.advance
      arguments calls callee (e :: read)
    else throw (.expectedArgumentSeparator t)

/-- Fold operators that bind at least as tightly as `least` onto their left operand. -/
def climb : (calls : Nat) → (least : Nat) → (left : Expr) → DescentM σ Expr
  | 0, _, _ => stop
  | calls + 1, least, left => do
    match ← operator with
    | none => return left
    | some (op, s) =>
      if s < least then return left
      else do
        let _ ← lift Parser.take
        let right ← operand calls
        match ← operator with
        | none => climb calls least (.binary op left right)
        | some (_, following) =>
          if s < following then do
            let least' ← tighter s
            let right ← climb calls least' right
            climb calls least (.binary op left right)
          else climb calls least (.binary op left right)

/-- Parse an expression. -/
def expression : (calls : Nat) → DescentM σ Expr
  | 0 => stop
  | calls + 1 => nested do
    let left ← operand calls
    climb calls 0 left

end

/-! ### One thing after another -/

omit [ItemStream σ] in
theorem lift_ne_none {α : Type} (m : ParseM σ α) (d : Descent σ) : lift m d ≠ none := by
  cases h : m d.parser with
  | ok a p => simp [lift, h]
  | error e p => simp [lift, h]

section Sequence

variable {α β : Type} {p q : Parser σ} {d : Nat}

theorem peek_bind (hp : p.primed = true) (f : Token → DescentM σ β) :
    (lift Parser.peek >>= f) ⟨p, d⟩ = f p.current ⟨p, d⟩ := by
  simp only [bind, ExceptT.bind, ExceptT.mk, StateT.bind, lift, Parser.peek_of_primed hp]
  rfl

theorem operator_bind (hp : p.primed = true) (f : Option (Char × Nat) → DescentM σ β) :
    (operator >>= f) ⟨p, d⟩ = f (p.operators.find? p.current) ⟨p, d⟩ := by
  rw [operator, bind_assoc, peek_bind hp]
  rfl

theorem advance_bind_ok (h : Parser.advance p = .ok () q) (f : Unit → DescentM σ β) :
    (lift Parser.advance >>= f) ⟨p, d⟩ = f () ⟨q, d⟩ := by
  simp only [bind, ExceptT.bind, ExceptT.mk, StateT.bind, lift, h]
  rfl

theorem advance_bind_error {e : ParseError} (h : Parser.advance p = .error e q)
    (f : Unit → DescentM σ β) :
    (lift Parser.advance >>= f) ⟨p, d⟩ = some (.error e, ⟨q, d⟩) := by
  simp only [bind, ExceptT.bind, ExceptT.mk, StateT.bind, lift, h]
  rfl

theorem take_bind (hp : p.primed = true) (f : Token → DescentM σ β) :
    (lift Parser.take >>= f) ⟨p, d⟩ = (lift Parser.advance >>= fun _ => f p.current) ⟨p, d⟩ := by
  cases h : Parser.advance p with
  | ok u q =>
      have ht : Parser.take p = .ok p.current q := by
        simp only [Parser.take, bind, EStateM.bind, Parser.peek_of_primed hp, h]
        rfl
      rw [advance_bind_ok h]
      simp only [bind, ExceptT.bind, ExceptT.mk, StateT.bind, lift, ht]
      rfl
  | error e q =>
      have ht : Parser.take p = .error e q := by
        simp only [Parser.take, bind, EStateM.bind, Parser.peek_of_primed hp, h]
      rw [advance_bind_error h]
      simp only [bind, ExceptT.bind, ExceptT.mk, StateT.bind, lift, ht]
      rfl

omit [ItemStream σ] in
theorem tighter_bind {s : Nat} (hs : s + 1 < UInt32.size) (f : Nat → DescentM σ β) :
    (tighter s >>= f) ⟨p, d⟩ = f (s + 1) ⟨p, d⟩ := by
  simp only [bind, ExceptT.bind, ExceptT.mk, StateT.bind, tighter, if_pos hs]
  rfl

end Sequence

end Descent

/-! ### The machine, one token after the other -/

namespace Machine

variable {σ : Type} [ItemStream σ] {p q : Parser σ} {m m' : Machine} {e : ParseError}

theorem run_eq (m : Machine) (p : Parser σ) :
    m.run p = match m.step p.operators p.current with
      | .done e => .ok e p
      | .fail e => .error e p
      | .shift m' => match Parser.advance p with
        | .ok _ q => m'.run q
        | .error e q => .error e q := by
  fun_cases Machine.run m p with
  | case1 e hs => rw [hs]
  | case2 e hs => rw [hs]
  | case3 m' hs u q ha => rw [hs, ha]
  | case4 m' hs e q ha => rw [hs, ha]

theorem run_of_done {e : Expr} (hs : m.step p.operators p.current = .done e) :
    m.run p = .ok e p := by
  rw [run_eq, hs]

theorem run_of_fail (hs : m.step p.operators p.current = .fail e) : m.run p = .error e p := by
  rw [run_eq, hs]

theorem run_of_shift (hs : m.step p.operators p.current = .shift m')
    (ha : Parser.advance p = .ok () q) : m.run p = m'.run q := by
  rw [run_eq, hs, ha]

theorem run_of_shift_error (hs : m.step p.operators p.current = .shift m')
    (ha : Parser.advance p = .error e q) : m.run p = .error e q := by
  rw [run_eq, hs, ha]

/-- States that do the same at the token under the cursor do the same from there on. -/
theorem run_congr (h : m.step p.operators p.current = m'.step p.operators p.current) :
    m.run p = m'.run p := by
  rw [run_eq, run_eq, h]

section Steps

variable {ops : Operators} {t : Token} {os : List Pending} {fs : List Frame}

theorem step_number {v : Float} (hd : fs.length < maxNesting) (ht : t = .number v) :
    step ops ⟨.start, os, fs⟩ t = .shift ⟨.operand (.number v), os, fs⟩ := by
  simp [step, beginOperand, Nat.not_le.mpr hd, ht]

theorem step_ident {x : String} (hd : fs.length < maxNesting) (ht : t = .ident x) :
    step ops ⟨.start, os, fs⟩ t = .shift ⟨.name x, os, fs⟩ := by
  simp [step, beginOperand, Nat.not_le.mpr hd, ht]

theorem step_open (hd : fs.length < maxNesting) (ht : t = .char '(') :
    step ops ⟨.start, os, fs⟩ t = .shift ⟨.start, [], ⟨.group, os⟩ :: fs⟩ := by
  simp [step, beginOperand, Nat.not_le.mpr hd, ht]

theorem step_name_open {x : String} (ht : t = .char '(') :
    step ops ⟨.name x, os, fs⟩ t = .shift ⟨.opened x, os, fs⟩ :=
  if_pos ht

/-- A name that no bracket follows is a variable. -/
theorem step_name {x : String} (ht : t ≠ .char '(') :
    step ops ⟨.name x, os, fs⟩ t = step ops ⟨.operand (.var x), os, fs⟩ t :=
  if_neg ht

theorem step_opened_close {f : String} (ht : t = .char ')') :
    step ops ⟨.opened f, os, fs⟩ t = .shift ⟨.operand (.call f []), os, fs⟩ :=
  if_pos ht

/-- A bracket behind a name that is not closed at once begins the first argument. -/
theorem step_opened {f : String} (ht : t ≠ .char ')') :
    step ops ⟨.opened f, os, fs⟩ t = step ops ⟨.start, [], ⟨.arguments f [], os⟩ :: fs⟩ t :=
  if_neg ht

/-- Before a token that binds no more tightly, or not at all, an operator takes its operands. -/
theorem step_operand_cons {op : Char} {s : Nat} {l r : Expr}
    (h : ∀ op' s', ops.find? t = some (op', s') → s' ≤ s) :
    step ops ⟨.operand r, ⟨l, op, s⟩ :: os, fs⟩ t =
      step ops ⟨.operand (.binary op l r), os, fs⟩ t := by
  simp only [step, endOperand]
  cases ht : ops.find? t with
  | none => rfl
  | some found =>
      obtain ⟨op', s'⟩ := found
      simp only [Pending.close, if_pos (h op' s' ht)]

/-- An operator that binds more tightly than those waiting leaves them waiting. -/
theorem step_operand_of_below {op : Char} {s : Nat} {l : Expr} (ht : ops.find? t = some (op, s))
    (hb : Pending.Below s os) :
    step ops ⟨.operand l, os, fs⟩ t = .shift ⟨.start, ⟨l, op, s⟩ :: os, fs⟩ := by
  have hc : Pending.close s os l = (l, os) := by
    cases os with
    | nil => rfl
    | cons o os => rw [Pending.close, if_neg (Nat.not_le.mpr (hb o rfl))]
  simp only [step, endOperand, ht, hc]

/-- Any other token ends the chain. -/
theorem step_operand_of_none {e : Expr} (ht : ops.find? t = none) :
    step ops ⟨.operand e, [], fs⟩ t = endChain e fs t := by
  simp only [step, endOperand, ht]
  rfl

theorem step_group_close {e : Expr} (hn : ops.find? t = none) (ht : t = .char ')') :
    step ops ⟨.operand e, [], ⟨.group, os⟩ :: fs⟩ t = .shift ⟨.operand e, os, fs⟩ := by
  rw [step_operand_of_none hn, endChain, if_pos ht]

theorem step_arguments_close {e : Expr} {f : String} {read : List Expr}
    (hn : ops.find? t = none) (ht : t = .char ')') :
    step ops ⟨.operand e, [], ⟨.arguments f read, os⟩ :: fs⟩ t =
      .shift ⟨.operand (.call f (e :: read).reverse), os, fs⟩ := by
  rw [step_operand_of_none hn, endChain, if_pos ht]

theorem step_arguments_comma {e : Expr} {f : String} {read : List Expr}
    (hn : ops.find? t = none) (ht : t = .char ',') :
    step ops ⟨.operand e, [], ⟨.arguments f read, os⟩ :: fs⟩ t =
      .shift ⟨.start, [], ⟨.arguments f (e :: read), os⟩ :: fs⟩ := by
  rw [step_operand_of_none hn, endChain, if_neg (by simp [ht]), if_pos ht]

end Steps

end Machine

/-! ### Side by side -/

/-- The strengths of the table have 32 bits. -/
def Operators.Fits (ops : Operators) : Prop := ∀ c s, ops c = some s → s < UInt32.size

namespace Descent

variable {σ : Type} [ItemStream σ]

/-- The machine, in state `m` at `p`, does what the descent has done from there at depth `d`: it
fails where the descent has failed, and where the descent has given an operand it goes on with it
from the state `k`, on a token that the descent was to stop at. -/
inductive Tracks (p : Parser σ) (d : Nat) (m : Machine) (k : Expr → Machine) (stop : Token → Prop) :
    Option (Except ParseError Expr × Descent σ) → Prop where
  | error {e : ParseError} {q : Parser σ} (h : m.run p = .error e q) :
      Tracks p d m k stop (some (.error e, ⟨q, d⟩))
  | ok {e : Expr} {q : Parser σ} (hp : q.primed = true) (ho : q.operators = p.operators)
      (hr : q.remaining ≤ p.remaining) (hs : stop q.current) (h : m.run p = (k e).run q) :
      Tracks p d m k stop (some (.ok e, ⟨q, d⟩))

variable {p : Parser σ} {d : Nat} {m m' : Machine} {k k' : Expr → Machine}
variable {stop stop' : Token → Prop}

theorem Tracks.congr {r : Option (Except ParseError Expr × Descent σ)}
    (h : m.step p.operators p.current = m'.step p.operators p.current)
    (t : Tracks p d m' k stop r) : Tracks p d m k stop r := by
  cases t with
  | error h' => exact .error (by rw [Machine.run_congr h, h'])
  | ok hp ho hr hs h' => exact .ok hp ho hr hs (by rw [Machine.run_congr h, h'])

theorem Tracks.fail {e : ParseError} (h : m.step p.operators p.current = .fail e) :
    Tracks p d m k stop ((throw e : DescentM σ Expr) ⟨p, d⟩) :=
  .error (Machine.run_of_fail h)

theorem Tracks.return {e : Expr} (hp : p.primed = true) (hs : stop p.current) (h : m = k e) :
    Tracks p d m k stop ((return e : DescentM σ Expr) ⟨p, d⟩) :=
  .ok hp rfl (Nat.le_refl _) hs (by rw [h])

/-- Taking a token. -/
theorem Tracks.advance {f : Unit → DescentM σ Expr}
    (h : m.step p.operators p.current = .shift m')
    (t : ∀ q : Parser σ, q.primed = true → q.operators = p.operators → q.remaining < p.remaining →
      Tracks q d m' k stop (f () ⟨q, d⟩)) :
    Tracks p d m k stop ((lift Parser.advance >>= f) ⟨p, d⟩) := by
  have hlt := Parser.remaining_advance_lt (Machine.ne_eof_of_shift h)
  cases ha : Parser.advance p with
  | error e q =>
      rw [advance_bind_error ha]
      exact .error (Machine.run_of_shift_error h ha)
  | ok u q =>
      rw [ha] at hlt
      have ho := Parser.operators_of_advance ha
      have hrun := Machine.run_of_shift h ha
      rw [advance_bind_ok ha]
      have t' := t q (Parser.primed_of_advance ha) ho hlt
      generalize f () ⟨q, d⟩ = r at t'
      cases t' with
      | error h' => exact .error (hrun.trans h')
      | ok hp ho' hr hs h' =>
          exact .ok hp (ho'.trans ho) (Nat.le_trans hr (Nat.le_of_lt hlt)) hs (hrun.trans h')

/-- One descent after another. -/
theorem Tracks.bind {x : DescentM σ Expr} {f : Expr → DescentM σ Expr}
    (t : Tracks p d m k stop (x ⟨p, d⟩))
    (t' : ∀ (e : Expr) (q : Parser σ), q.primed = true → q.operators = p.operators →
      q.remaining ≤ p.remaining → stop q.current → Tracks q d (k e) k' stop' (f e ⟨q, d⟩)) :
    Tracks p d m k' stop' ((x >>= f) ⟨p, d⟩) := by
  cases hx : x ⟨p, d⟩ with
  | none => rw [hx] at t; cases t
  | some result =>
      rw [hx] at t
      have hb : (x >>= f) ⟨p, d⟩ = ExceptT.bindCont f result.1 result.2 := by
        simp only [Bind.bind, ExceptT.bind, ExceptT.mk, StateT.bind, hx]
        rfl
      rw [hb]
      cases t with
      | error h => exact .error h
      | @ok e q hp ho hr hs h =>
          have t' := t' e q hp ho hr hs
          simp only [ExceptT.bindCont]
          generalize f e ⟨q, d⟩ = r at t'
          cases t' with
          | error h' => exact .error (h.trans h')
          | ok hp' ho' hr' hs' h' =>
              exact .ok hp' (ho'.trans ho) (Nat.le_trans hr' hr) hs' (h.trans h')

/-- Work with one more expression open. -/
theorem Tracks.nested {x : DescentM σ Expr} (hd : d < maxNesting)
    (t : Tracks p (d + 1) m k stop (x ⟨p, d + 1⟩)) (hs : ∀ u, stop u → stop' u) :
    Tracks p d m k stop' (nested x ⟨p, d⟩) := by
  rw [Descent.nested, if_neg (Nat.not_le.mpr hd)]
  dsimp only
  generalize x ⟨p, d + 1⟩ = r at t
  cases t with
  | error h => exact .error h
  | ok hq ho hr hstop h => exact .ok hq ho hr (hs _ hstop) h

/-- The machine does what `operand` does, when that is allowed so many calls. -/
def OperandTracks (σ : Type) [ItemStream σ] (calls : Nat) : Prop :=
  ∀ (p : Parser σ) (os : List Pending) (fs : List Frame), p.primed = true → p.operators.Fits →
    fs.length < maxNesting → 3 * p.remaining < calls →
    Tracks p (fs.length + 1) ⟨.start, os, fs⟩ (fun e => ⟨.operand e, os, fs⟩) (fun _ => True)
      (operand calls ⟨p, fs.length + 1⟩)

/-- The machine does what `arguments` does, when that is allowed so many calls. -/
def ArgumentsTracks (σ : Type) [ItemStream σ] (calls : Nat) : Prop :=
  ∀ (p : Parser σ) (f : String) (read : List Expr) (os : List Pending) (fs : List Frame),
    p.primed = true → p.operators.Fits → 3 * p.remaining + 2 < calls →
    Tracks p (fs.length + 1) ⟨.start, [], ⟨.arguments f read, os⟩ :: fs⟩
      (fun e => ⟨.operand e, os, fs⟩) (fun _ => True) (arguments calls f read ⟨p, fs.length + 1⟩)

/-- The machine does what `climb` does, when that is allowed so many calls and the operators waiting
bind less tightly than it is told. -/
def ClimbTracks (σ : Type) [ItemStream σ] (calls : Nat) : Prop :=
  ∀ (p : Parser σ) (least : Nat) (left : Expr) (os : List Pending) (fs : List Frame),
    p.primed = true → p.operators.Fits → fs.length < maxNesting → Pending.Below least os →
    3 * p.remaining < calls →
    Tracks p (fs.length + 1) ⟨.operand left, os, fs⟩ (fun e => ⟨.operand e, os, fs⟩)
      (fun t => ∀ op s, p.operators.find? t = some (op, s) → s < least)
      (climb calls least left ⟨p, fs.length + 1⟩)

/-- The machine does what `expression` does, when that is allowed so many calls. -/
def ExpressionTracks (σ : Type) [ItemStream σ] (calls : Nat) : Prop :=
  ∀ (p : Parser σ) (fs : List Frame), p.primed = true → p.operators.Fits →
    3 * p.remaining + 1 < calls →
    Tracks p fs.length ⟨.start, [], fs⟩ (fun e => ⟨.operand e, [], fs⟩)
      (fun t => p.operators.find? t = none) (expression calls ⟨p, fs.length⟩)

variable {calls : Nat}

theorem operandTracks_succ (ha : ArgumentsTracks σ calls) (he : ExpressionTracks σ calls) :
    OperandTracks σ (calls + 1) := by
  intro p os fs hp hf hd hn
  rw [operand, peek_bind hp]
  cases hc : p.current with
  | number v =>
      dsimp only
      rw [take_bind hp]
      exact .advance (Machine.step_number hd hc) fun q hq ho hr => .return hq trivial rfl
  | ident x =>
      dsimp only
      rw [take_bind hp]
      refine .advance (Machine.step_ident hd hc) fun q hq ho hr => ?_
      rw [peek_bind hq]
      by_cases hopen : q.current = .char '('
      · rw [if_pos hopen]
        refine .advance (Machine.step_name_open hopen) fun q' hq' ho' hr' => ?_
        rw [peek_bind hq']
        by_cases hclose : q'.current = .char ')'
        · rw [if_pos hclose]
          exact .advance (Machine.step_opened_close hclose) fun q'' hq'' ho'' hr'' =>
            .return hq'' trivial rfl
        · rw [if_neg hclose]
          exact .congr (Machine.step_opened hclose)
            (ha q' x [] os fs hq' (by rwa [ho', ho]) (by omega))
      · rw [if_neg hopen]
        exact .congr (Machine.step_name hopen) (.return hq trivial rfl)
  | char c =>
      dsimp only
      by_cases hg : Token.char c = .char '('
      · rw [if_pos hg]
        refine .advance (Machine.step_open hd (hc.trans hg)) fun q hq ho hr => ?_
        refine .bind (he q (⟨.group, os⟩ :: fs) hq (by rwa [ho]) (by omega))
          fun e q' hq' ho' hr' hs' => ?_
        rw [← ho'] at hs'
        rw [peek_bind hq']
        by_cases hclose : q'.current = .char ')'
        · rw [if_pos hclose]
          exact .advance (Machine.step_group_close hs' hclose) fun q'' hq'' ho'' hr'' =>
            .return hq'' trivial rfl
        · rw [if_neg hclose]
          refine .fail ?_
          rw [Machine.step_operand_of_none hs', Machine.endChain, if_neg hclose]
      · rw [if_neg hg]
        refine .fail ?_
        simp [hc, Machine.step, Machine.beginOperand, Nat.not_le.mpr hd]
  | _ =>
      refine .fail ?_
      simp [hc, Machine.step, Machine.beginOperand, Nat.not_le.mpr hd]

theorem argumentsTracks_succ (ha : ArgumentsTracks σ calls) (he : ExpressionTracks σ calls) :
    ArgumentsTracks σ (calls + 1) := by
  intro p f read os fs hp hf hn
  rw [arguments]
  refine .bind (he p (⟨.arguments f read, os⟩ :: fs) hp hf (by omega)) fun e q hq ho hr hs => ?_
  rw [← ho] at hs
  rw [peek_bind hq]
  by_cases hclose : q.current = .char ')'
  · rw [if_pos hclose]
    exact .advance (Machine.step_arguments_close hs hclose) fun q' hq' ho' hr' =>
      .return hq' trivial rfl
  · rw [if_neg hclose]
    by_cases hcomma : q.current = .char ','
    · rw [if_pos hcomma]
      exact .advance (Machine.step_arguments_comma hs hcomma) fun q' hq' ho' hr' =>
        ha q' f (e :: read) os fs hq' (by rwa [ho', ho]) (by omega)
    · rw [if_neg hcomma]
      refine .fail ?_
      rw [Machine.step_operand_of_none hs, Machine.endChain, if_neg hclose, if_neg hcomma]

/-- Going on with both operands of an operator, from where none binds more tightly. -/
theorem ClimbTracks.fold (hc : ClimbTracks σ calls) {p : Parser σ} {least s : Nat} {op : Char}
    {left right : Expr} {os : List Pending} {fs : List Frame} (hp : p.primed = true)
    (hf : p.operators.Fits) (hd : fs.length < maxNesting) (hb : Pending.Below least os)
    (hn : 3 * p.remaining < calls)
    (hs : ∀ op' s', p.operators.find? p.current = some (op', s') → s' ≤ s) :
    Tracks p (fs.length + 1) ⟨.operand right, ⟨left, op, s⟩ :: os, fs⟩
      (fun e => ⟨.operand e, os, fs⟩)
      (fun t => ∀ op s, p.operators.find? t = some (op, s) → s < least)
      (climb calls least (.binary op left right) ⟨p, fs.length + 1⟩) :=
  .congr (Machine.step_operand_cons hs) (hc p least (.binary op left right) os fs hp hf hd hb hn)

theorem climbTracks_succ (hc : ClimbTracks σ calls) (ho : OperandTracks σ calls) :
    ClimbTracks σ (calls + 1) := by
  intro p least left os fs hp hf hd hb hn
  rw [climb, operator_bind hp]
  cases hop : p.operators.find? p.current with
  | none =>
      refine .return hp ?_ rfl
      intro op s h
      rw [hop] at h
      cases h
  | some found =>
      obtain ⟨op, s⟩ := found
      dsimp only
      by_cases hlt : s < least
      · rw [if_pos hlt]
        refine .return hp ?_ rfl
        intro op' s' h
        rw [hop] at h
        cases h
        exact hlt
      · rw [if_neg hlt, take_bind hp]
        have hbs : Pending.Below s os := fun o h =>
          Nat.lt_of_lt_of_le (hb o h) (Nat.le_of_not_lt hlt)
        refine .advance (Machine.step_operand_of_below hop hbs) fun q hq hoq hr => ?_
        rw [← hoq] at hf ⊢
        refine .bind (ho q (⟨left, op, s⟩ :: os) fs hq hf hd (by omega))
          fun right q' hq' hoq' hr' _ => ?_
        rw [← hoq'] at hf ⊢
        rw [operator_bind hq']
        cases hop' : q'.operators.find? q'.current with
        | none =>
            refine hc.fold hq' hf hd hb (by omega) ?_
            intro op' s' h
            rw [hop'] at h
            cases h
        | some found =>
            obtain ⟨op', s'⟩ := found
            dsimp only
            by_cases hlt' : s < s'
            · -- the next strength is no greater than one in the table, so it does not overflow
              have hs' : s' < UInt32.size := hf op' s' (Operators.find?_eq_some hop').2
              rw [if_pos hlt', tighter_bind (Nat.lt_of_le_of_lt hlt' hs')]
              refine .bind (hc q' (s + 1) right (⟨left, op, s⟩ :: os) fs hq' hf hd ?_ (by omega))
                fun right' r hr'' hor hrem hs'' => ?_
              · intro o h
                cases h
                exact Nat.lt_succ_self s
              · rw [← hor] at hf hs'' ⊢
                refine hc.fold hr'' hf hd hb (by omega) ?_
                intro op'' s'' h
                exact Nat.le_of_lt_succ (hs'' op'' s'' h)
            · rw [if_neg hlt']
              refine hc.fold hq' hf hd hb (by omega) ?_
              intro op'' s'' h
              rw [hop'] at h
              cases h
              exact Nat.le_of_not_lt hlt'

theorem expressionTracks_succ (ho : OperandTracks σ calls) (hc : ClimbTracks σ calls) :
    ExpressionTracks σ (calls + 1) := by
  intro p fs hp hf hn
  rw [expression]
  by_cases hl : maxNesting ≤ fs.length
  · rw [nested, if_pos hl]
    exact .error (Machine.run_of_fail (by simp [Machine.step, Machine.beginOperand, hl]))
  · have hd := Nat.lt_of_not_le hl
    have t : Tracks p (fs.length + 1) ⟨.start, [], fs⟩ (fun e => ⟨.operand e, [], fs⟩)
        (fun t => ∀ op s, p.operators.find? t = some (op, s) → s < 0)
        ((operand calls >>= climb calls 0) ⟨p, fs.length + 1⟩) := by
      refine .bind (ho p [] fs hp hf hd (by omega)) fun left q hq hoq hr _ => ?_
      rw [← hoq] at hf ⊢
      exact hc q 0 left [] fs hq hf hd (fun o h => by cases h) (by omega)
    refine .nested hd t fun t h => Option.eq_none_iff_forall_ne_some.mpr ?_
    intro found hfound
    exact Nat.not_lt_zero _ (h _ _ hfound)

/-- **The machine does what the descent does**, however many calls that is allowed. -/
theorem tracks (calls : Nat) :
    OperandTracks σ calls ∧ ArgumentsTracks σ calls ∧ ClimbTracks σ calls ∧
      ExpressionTracks σ calls := by
  induction calls with
  | zero => exact ⟨nofun, nofun, nofun, nofun⟩
  | succ calls ih =>
      obtain ⟨ho, ha, hc, he⟩ := ih
      exact ⟨operandTracks_succ ha he, argumentsTracks_succ ha he, climbTracks_succ hc ho,
        expressionTracks_succ ho hc⟩

/-! ### From the start -/

theorem peek_bind_ok {α : Type} {q : Parser σ} {t : Token} (h : Parser.peek p = .ok t q)
    (f : Token → DescentM σ α) : (lift Parser.peek >>= f) ⟨p, d⟩ = f t ⟨q, d⟩ := by
  simp only [Bind.bind, ExceptT.bind, ExceptT.mk, StateT.bind, lift, h]
  rfl

theorem peek_bind_error {α : Type} {q : Parser σ} {e : ParseError} (h : Parser.peek p = .error e q)
    (f : Token → DescentM σ α) : (lift Parser.peek >>= f) ⟨p, d⟩ = some (.error e, ⟨q, d⟩) := by
  simp only [Bind.bind, ExceptT.bind, ExceptT.mk, StateT.bind, lift, h]
  rfl

theorem operand_of_peek {q : Parser σ} {t : Token} (h : Parser.peek p = .ok t q) (calls : Nat) :
    operand calls ⟨p, d⟩ = operand calls ⟨q, d⟩ := by
  obtain ⟨rfl, hq⟩ := Parser.eq_current_of_peek h
  cases calls with
  | zero => rfl
  | succ calls => rw [operand, peek_bind_ok h, peek_bind hq]

theorem expression_of_peek {q : Parser σ} {t : Token} (h : Parser.peek p = .ok t q) (calls : Nat) :
    expression calls ⟨p, 0⟩ = expression calls ⟨q, 0⟩ := by
  have hl : ¬ maxNesting ≤ 0 := by decide
  cases calls with
  | zero => rfl
  | succ calls =>
      rw [expression, nested, nested, if_neg hl, if_neg hl]
      simp only [Bind.bind, ExceptT.bind, ExceptT.mk, StateT.bind, operand_of_peek h]

theorem expression_of_peek_error {q : Parser σ} {e : ParseError} (h : Parser.peek p = .error e q)
    (calls : Nat) : expression (calls + 2) ⟨p, 0⟩ = some (.error e, ⟨q, 0⟩) := by
  have ho : operand (calls + 1) ⟨p, 0 + 1⟩ = some (.error e, ⟨q, 0 + 1⟩) := by
    rw [operand, peek_bind_error h]
  have hl : ¬ maxNesting ≤ 0 := by decide
  rw [expression, nested, if_neg hl]
  simp only [Bind.bind, ExceptT.bind, ExceptT.mk, StateT.bind, ho]
  rfl

/-- **The descent and the machine are one parser.**  Over a table of 32-bit strengths a descent that
is allowed enough calls ends and does not overflow, its result is the machine's, and no expression
stays open. -/
theorem expression_eq (p : Parser σ) (hf : p.operators.Fits) {calls : Nat}
    (hn : 3 * p.remaining + 1 < calls) :
    expression calls ⟨p, 0⟩ = lift Parser.expression ⟨p, 0⟩ := by
  have hle := Parser.forward_peek p
  cases hp : Parser.peek p with
  | error e q =>
      obtain ⟨calls, rfl⟩ := Nat.exists_eq_add_of_le' (show 2 ≤ calls by omega)
      rw [expression_of_peek_error hp]
      simp only [lift, Parser.expression, Bind.bind, EStateM.bind, hp]
  | ok t p₀ =>
      rw [hp] at hle
      have ho := Parser.operators_of_peek hp
      have tracks := (tracks calls).2.2.2 p₀ [] (Parser.eq_current_of_peek hp).2 (by rwa [ho])
        (by simp only at hle; omega)
      rw [expression_of_peek hp]
      simp only [lift, Parser.expression, Bind.bind, EStateM.bind, hp]
      generalize expression calls (⟨p₀, 0⟩ : Descent σ) = r at tracks
      cases tracks with
      | error h => rw [h]; rfl
      | @ok e q hq ho' hr hs h =>
          rw [← ho'] at hs
          rw [h, Machine.run_of_done (Machine.step_operand_of_none hs)]
          rfl

end Descent

end Reckon
