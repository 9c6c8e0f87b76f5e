import Reckon.Code.Execution
import Reckon.Generator

/-!
# Proofs — Meaning

What programs mean, said of trees.  A library keeps for every name its parameters and, unless the
function comes from outside, its body as an expression.  A body is evaluated by recursion on it:
the left operand before the right one, arguments in order and then the call, whose callee is looked
up when it is called.

`Command.run` drives a generator and a library side by side: the library takes over what a form
defines, and drops what a form fails to define.
-/

namespace Reckon

/-! ### Evaluation -/

/-- Why an evaluation fails: as a run fails, or because the tree refers to nothing. -/
inductive Fault where
  | run (e : ExecError)
  | unbound (name : String)
  | noOperator (op : Char)
  deriving DecidableEq

/-- An evaluation with the acts so far. -/
abbrev Eval := EStateM Fault (Array Act)

/-- A run as an evaluation. -/
def Run.toEval {α : Type} (m : Run α) : Eval α := fun acts =>
  match m acts with
  | .ok a acts => .ok a acts
  | .error e acts => .error (.run e) acts

/-- The result of an operator.  Less-than is one or zero, and one also when a side is no number. -/
def operate (op : Char) (x y : Float) : Eval Float :=
  match op with
  | '+' => return x + y
  | '-' => return x - y
  | '*' => return x * y
  | '<' => return if !(x ≥ y) then 1 else 0
  | _ => throw (.noOperator op)

mutual

/-- The value of an expression, where `call` calls a function and `vals` are the values of the
parameters. -/
def Expr.eval (call : String → List Float → Eval Float) (vals : List (String × Float)) :
    Expr → Eval Float
  | .number x => return x
  | .var name =>
    match vals.lookup name with
    | some x => return x
    | none => throw (.unbound name)
  | .binary op left right => do
    let x ← left.eval call vals
    let y ← right.eval call vals
    operate op x y
  | .call callee args => do
    let xs ← evalAll call vals args
    call callee xs

/-- The values of several expressions, the first one first. -/
def Expr.evalAll (call : String → List Float → Eval Float) (vals : List (String × Float)) :
    List Expr → Eval (List Float)
  | [] => return []
  | e :: es => do
    let x ← e.eval call vals
    let xs ← evalAll call vals es
    return x :: xs

end

/-! ### Libraries -/

/-- A function as a tree; one from outside has no body. -/
structure Tree where
  params : List String
  body : Option Expr

/-- The functions by name. -/
abbrev Library := String → Option Tree

namespace Library

/-- No functions. -/
def empty : Library := fun _ => none

/-- The library with a function for the name, instead of the one it had. -/
def insert (lib : Library) (name : String) (tree : Tree) : Library :=
  fun other => if other = name then some tree else lib other

/-- The library without the name. -/
def erase (lib : Library) (name : String) : Library :=
  fun other => if other = name then none else lib other

/-- Call a function when `left` more calls may be under way. -/
def call (lib : Library) : (left : Nat) → String → List Float → Eval Float
  | 0, name, _ => throw (.run (.stackOverflow maxCallDepth name))
  | left + 1, name, args =>
    match lib name with
    | none => throw (.run (.unknownFunction name))
    | some tree =>
      if tree.params.length = args.length then
        match tree.body with
        | none => (Native.run name args).toEval
        | some e => do
          modify (·.push (.entered name (maxCallDepth - (left + 1))))
          e.eval (lib.call left) (tree.params.zip args)
      else throw (.run (.arityMismatch name tree.params.length args.length))

/-- Call a function of the library: what comes of it, and what it does on the way. -/
def execute (lib : Library) (name : String) (args : List Float) : Except Fault Float × Array Act :=
  match lib.call maxCallDepth name args #[] with
  | .ok x acts => (.ok x, acts)
  | .error e acts => (.error e, acts)

end Library

/-! ### Sessions -/

/-- The body of the function the form is about. -/
def Form.body? : Form → Option Expr
  | .definition f => some f.body
  | .declaration _ => none
  | .expression f => some f.body

/-- The library after a form, by what came of generating it. -/
def Library.record (lib : Library) (form : Form) : Except GenError Handle → Library
  | .ok _ => lib.insert form.prototype.name ⟨form.prototype.params, form.body?⟩
  | .error (.duplicateParameter _ _) => lib
  | .error _ => lib.erase form.prototype.name

/-- Something a generator is told. -/
inductive Command where
  | generate (form : Form)
  | reset

/-- What came of generating a form, and the generator afterwards. -/
def Generator.after (form : Form) (g : Generator) : Except GenError Handle × Generator :=
  match Generator.generate form g with
  | .ok handle g => (.ok handle, g)
  | .error e g => (.error e, g)

/-- Do what the command says, to the generator and the library. -/
def Command.run : Command → Generator × Library → Generator × Library
  | .generate form, (g, lib) =>
    let (outcome, g) := g.after form
    (g, lib.record form outcome)
  | .reset, (g, lib) => (g.reset, lib)

/-- A generator that has generated nothing, with a module of the name, and the library of it after
the commands. -/
def Command.runAll (name : String) (commands : List Command) : Generator × Library :=
  commands.foldl (fun s c => c.run s) ({ builder := .empty name }, .empty)

end Reckon
