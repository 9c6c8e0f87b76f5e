import Reckon.Expr
import Reckon.Parser.Cursor

/-!
# Parser — Expression

Expressions are parsed by a machine that takes one token at a time.  It keeps the operators that
wait for their right operand, those of the innermost chain apart from those outside the brackets
that are open.  An operator first closes all those before it in its chain that bind at least as
tightly, so operators of one strength group to the left and tighter ones stay below looser ones.

What the machine does with a token depends on nothing but the token, the table of operators and its
own state (`Machine.step`); it takes the end of the input for no part of an expression
(`Machine.ne_eof_of_shift`), so it stops.
-/

namespace Reckon

/-- The most brackets and argument lists that may be open around an expression. -/
def maxNesting : Nat := 256

/-- An operator with its left operand, waiting for the right one. -/
structure Pending where
  left : Expr
  op : Char
  strength : Nat

/-- An open bracket: around an expression, or around the arguments of a call, of which those read
are kept with the last one first. -/
inductive Bracket where
  | group
  | arguments (callee : String) (read : List Expr)

/-- An open bracket and the operators that wait outside it. -/
structure Frame where
  bracket : Bracket
  outside : List Pending

/-- What has just been read. -/
inductive Control where
  /-- nothing, or something that has to be followed by an operand -/
  | start
  /-- an identifier: a variable, or the name of a call if a bracket follows -/
  | name (x : String)
  /-- an identifier and an open bracket -/
  | opened (callee : String)
  /-- a whole operand -/
  | operand (e : Expr)

/-- The state of the machine: what has just been read, the operators that wait in the innermost
chain, and the open brackets, the innermost first in both. -/
structure Machine where
  control : Control := .start
  pending : List Pending := []
  frames : List Frame := []

/-- What the machine does at a token. -/
inductive Action where
  /-- take the token and go on -/
  | shift (m : Machine)
  /-- the expression ends before the token -/
  | done (e : Expr)
  | fail (e : ParseError)

/-- The operand of the waiting operators that bind at least as tightly as `strength`, and the
operators that wait for more. -/
def Pending.close (strength : Nat) : List Pending → Expr → Expr × List Pending
  | [], e => (e, [])
  | o :: os, e =>
    if strength ≤ o.strength then close strength os (.binary o.op o.left e) else (e, o :: os)

/-- The whole chain that ends with the operand. -/
def Pending.closeAll (pending : List Pending) (e : Expr) : Expr :=
  pending.foldl (fun e o => .binary o.op o.left e) e

/-- The operator a token stands for, with its strength. -/
def Operators.find? (ops : Operators) : Token → Option (Char × Nat)
  | .char c => (ops c).map (c, ·)
  | _ => none

namespace Machine

/-- The next token has to begin an operand. -/
def beginOperand (pending : List Pending) (frames : List Frame) (t : Token) : Action :=
  if maxNesting ≤ frames.length then .fail (.nestingTooDeep maxNesting)
  else match t with
    | .number v => .shift ⟨.operand (.number v), pending, frames⟩
    | .ident x => .shift ⟨.name x, pending, frames⟩
    | .char '(' => .shift ⟨.start, [], ⟨.group, pending⟩ :: frames⟩
    | t => .fail (.expectedExpression t)

/-- The chain `e` is complete, and the token has to fit the innermost bracket. -/
def endChain (e : Expr) (frames : List Frame) (t : Token) : Action :=
  match frames with
  | [] => .done e
  | ⟨.group, outside⟩ :: frames =>
    if t = .char ')' then .shift ⟨.operand e, outside, frames⟩ else .fail (.expectedCloseParen t)
  | ⟨.arguments callee read, outside⟩ :: frames =>
    if t = .char ')' then .shift ⟨.operand (.call callee (e :: read).reverse), outside, frames⟩
    else if t = .char ',' then
      .shift ⟨.start, [], ⟨.arguments callee (e :: read), outside⟩ :: frames⟩
    else .fail (.expectedArgumentSeparator t)

/-- The operand `e` is complete: an operator goes on with its chain, anything else ends it. -/
def endOperand (ops : Operators) (e : Expr) (pending : List Pending) (frames : List Frame)
    (t : Token) : Action :=
  match ops.find? t with
  | some (op, strength) =>
    let (left, pending) := Pending.close strength pending e
    .shift ⟨.start, ⟨left, op, strength⟩ :: pending, frames⟩
  | none => endChain (Pending.closeAll pending e) frames t

/-- What the machine does at a token. -/
def step (ops : Operators) (m : Machine) (t : Token) : Action :=
  match m.control with
  | .start => beginOperand m.pending m.frames t
  | .name x =>
    if t = .char '(' then .shift ⟨.opened x, m.pending, m.frames⟩
    else endOperand ops (.var x) m.pending m.frames t
  | .opened callee =>
    if t = .char ')' then .shift ⟨.operand (.call callee []), m.pending, m.frames⟩
    else beginOperand [] (⟨.arguments callee [], m.pending⟩ :: m.frames) t
  | .operand e => endOperand ops e m.pending m.frames t

theorem beginOperand_eof (pending : List Pending) (frames : List Frame) (m : Machine) :
    beginOperand pending frames .eof ≠ .shift m := by
  unfold beginOperand
  split <;> simp

theorem endChain_eof (e : Expr) (frames : List Frame) (m : Machine) :
    endChain e frames .eof ≠ .shift m := by
  unfold endChain
  split <;> simp

theorem endOperand_eof (ops : Operators) (e : Expr) (pending : List Pending) (frames : List Frame)
    (m : Machine) : endOperand ops e pending frames .eof ≠ .shift m :=
  endChain_eof _ _ _

/-- The machine never takes the end of the input. -/
theorem ne_eof_of_shift {ops : Operators} {m m' : Machine} {t : Token}
    (h : m.step ops t = .shift m') : t ≠ .eof := by
  rintro rfl
  unfold step at h
  split at h
  · exact beginOperand_eof _ _ _ h
  · exact endOperand_eof _ _ _ _ _ (by simpa using h)
  · exact beginOperand_eof _ _ _ (by simpa using h)
  · exact endOperand_eof _ _ _ _ _ h

variable {σ : Type} [ItemStream σ]

/-- Run the machine to the end of the expression. -/
def run (m : Machine) (p : Parser σ) : EStateM.Result ParseError (Parser σ) Expr :=
  match _hm : m.step p.operators p.current with
  | .done e => .ok e p
  | .fail e => .error e p
  | .shift m' =>
    match _ha : Parser.advance p with
    | .ok _ q => run m' q
    | .error e q => .error e q
termination_by p.remaining
decreasing_by
  have := Parser.remaining_advance_lt (ne_eof_of_shift _hm)
  rw [_ha] at this
  exact this

end Machine

/-- Parse an expression. -/
def Parser.expression {σ : Type} [ItemStream σ] : ParseM σ Expr := do
  let _ ← peek
  Machine.run {}

end Reckon
