import Reckon.Expr
import Reckon.Generator.Error
import Reckon.Generator.Signatures

/-!
# Generator — Lowering

Emitting the code of an expression.  Operands come before their operator, the left one first, and
arguments before their call; the first failure in that order is the one reported.  Expressions are
as deep as operator chains are long, so what is left to do is kept in a list of tasks, and the
registers of finished operands in a stack.
-/

namespace Reckon

/-- Emitting code, with the failures of code generation. -/
abbrev LowerM := EStateM GenError Builder

/-- A call of the builder as part of code generation. -/
def BuildM.lift {α : Type} (m : BuildM α) : LowerM α := fun b =>
  match m b with
  | .ok a b => .ok a b
  | .error e b => .error (.build e) b

/-- What an expression may refer to: functions by their arity, and parameters by their register. -/
structure Env where
  signatures : Signatures
  params : List (String × Reg)

namespace Lowering

/-- Emit an instruction. -/
def emit (i : Instr) : LowerM Reg := BuildM.lift (Builder.emit i)

/-- A step of the work. -/
inductive Task where
  /-- emit the code of an expression -/
  | visit (e : Expr)
  /-- emit an operator whose operands are the two topmost registers -/
  | operate (op : Char)
  /-- emit a call whose arguments are the `count` topmost registers -/
  | invoke (callee : Handle) (count : Nat)

/-- How much work a task is. -/
def Task.weight : Task → Nat
  | .visit e => 2 * e.size
  | .operate _ => 1
  | .invoke _ _ => 1

/-- How much work several tasks are. -/
def weight : List Task → Nat
  | [] => 0
  | t :: ts => t.weight + weight ts

theorem weight_append (ts us : List Task) : weight (ts ++ us) = weight ts + weight us := by
  induction ts with
  | nil => simp [weight]
  | cons t ts ih => simp [weight, ih, Nat.add_assoc]

theorem weight_visits (es : List Expr) : weight (es.map .visit) = 2 * Expr.sizes es := by
  induction es with
  | nil => rfl
  | cons e es ih => simp [weight, Task.weight, Expr.sizes, ih]; omega

/-- The register of a parameter. -/
def variableReg (env : Env) (name : String) : LowerM Reg :=
  match env.params.lookup name with
  | some reg => return reg
  | none => throw (.unknownVariable name)

/-- The function a call with `count` arguments means: it has to be registered, with that arity, and
declared. -/
def callee (env : Env) (name : String) (count : Nat) : LowerM Handle :=
  match env.signatures.arity? name with
  | none => throw (.unknownFunction name)
  | some expected =>
    if expected = count then do
      match (← get).lookup name with
      | some handle => return handle
      | none => throw (.unknownFunction name)
    else throw (.arityMismatch name expected count)

/-- Emit an operator.  Less-than gives a truth value, which is made a number. -/
def operator (op : Char) (left right : Reg) : LowerM Reg :=
  match Arith.ofChar? op with
  | some arith => emit (.arith arith left right)
  | none =>
    if op = '<' then do
      let flag ← emit (.less left right)
      emit (.widen flag)
    else throw (.invalidOperator op)

/-- Do the tasks, with the registers of finished operands, the last one first.  Every operator and
call finds its operands there. -/
def run (env : Env) (tasks : List Task) (values : List Reg) : LowerM Reg :=
  match tasks with
  | [] =>
    match values with
    | reg :: _ => return reg
    | [] => throw (.build .noActiveFunction)
  | .visit (.number value) :: rest => do
    let reg ← emit (.const value)
    run env rest (reg :: values)
  | .visit (.var name) :: rest => do
    let reg ← variableReg env name
    run env rest (reg :: values)
  | .visit (.binary op left right) :: rest =>
    run env (.visit left :: .visit right :: .operate op :: rest) values
  | .visit (.call name args) :: rest => do
    let handle ← callee env name args.length
    run env (args.map .visit ++ .invoke handle args.length :: rest) values
  | .operate op :: rest =>
    match values with
    | right :: left :: values => do
      let reg ← operator op left right
      run env rest (reg :: values)
    | _ => throw (.build .noActiveFunction)
  | .invoke handle count :: rest => do
    let reg ← emit (.call handle.name (values.take count).reverse)
    run env rest (reg :: values.drop count)
termination_by weight tasks
decreasing_by
  all_goals simp [weight, weight_append, weight_visits, Task.weight, Expr.size] <;> omega

end Lowering

/-- Emit the code of an expression and give the register of its value. -/
def Expr.lower (env : Env) (e : Expr) : LowerM Reg := Lowering.run env [.visit e] []

end Reckon
