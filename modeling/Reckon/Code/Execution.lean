import Reckon.Code.Module
import Reckon.Code.Native

/-!
# Code — Execution

Running the functions of a module.  There are no branches, so a recursive call never returns; the
depth of calls is limited instead.  What a run does on the way, entering functions and calling
built-in ones, is recorded also when it fails.
-/

namespace Reckon

/-- The most calls that may be under way at once. -/
def maxCallDepth : Nat := 256

/-- Why a run fails. -/
inductive ExecError where
  | unknownFunction (name : String)
  | unresolvedExtern (name : String)
  | arityMismatch (name : String) (expected found : Nat)
  | stackOverflow (limit : Nat) (name : String)
  | invalidOperand (reg : Reg) (function : String)
  deriving DecidableEq

/-- The wording of the error. -/
def ExecError.text : ExecError → String
  | .unknownFunction name => s!"unknown function {name}"
  | .unresolvedExtern name => s!"extern {name} has no native implementation"
  | .arityMismatch name expected found =>
    s!"invalid number of args in call {name} expected {expected} found {found}"
  | .stackOverflow limit name => s!"call depth exceeded {limit} while calling {name}"
  | .invalidOperand reg function =>
    s!"register {reg.text} holds the wrong kind of value in {function}"

/-- Something a run does. -/
inductive Act where
  | entered (name : String) (depth : Nat)
  | native (name : String) (args : List Float)
  deriving DecidableEq

/-- What the act writes. -/
def Act.written : Act → String
  | .entered _ _ => ""
  | .native name args => ((Native.find? name).map (·.written args)).getD ""

/-- What a register holds. -/
inductive Slot where
  | number (x : Float)
  | flag (b : Bool)

/-- A run with the acts so far. -/
abbrev Run := EStateM ExecError (Array Act)

/-- The values of the registers defined so far. -/
abbrev Slots := Array Slot

namespace Slots

/-- The number in the register. -/
def number (slots : Slots) (function : String) (r : Reg) : Run Float :=
  match slots[r.index]? with
  | some (.number x) => return x
  | _ => throw (.invalidOperand r function)

/-- The truth value in the register. -/
def flag (slots : Slots) (function : String) (r : Reg) : Run Bool :=
  match slots[r.index]? with
  | some (.flag b) => return b
  | _ => throw (.invalidOperand r function)

end Slots

/-- The value of an instruction in the body of `function`, where `call` runs a function. -/
def Instr.run (call : String → List Float → Run Float) (function : String) (args : List Float)
    (slots : Slots) : Instr → Run Slot
  | .const value => return .number value
  | .param index =>
    match args[index]? with
    | some x => return .number x
    | none => throw (.invalidOperand ⟨slots.size⟩ function)
  | .arith op l r => do
    let x ← slots.number function l
    let y ← slots.number function r
    return .number (op.apply x y)
  | .less l r => do
    let x ← slots.number function l
    let y ← slots.number function r
    return .flag (!(x ≥ y))
  | .widen r => do
    let b ← slots.flag function r
    return .number (if b then 1 else 0)
  | .call callee operands => do
    let values ← operands.mapM (slots.number function)
    return .number (← call callee values)

/-- The value of the body of `function`. -/
def Body.run (call : String → List Float → Run Float) (function : String) (args : List Float)
    (b : Body) : Run Float := do
  let step (slots : Slots) (i : Instr) : Run Slots :=
    return slots.push (← i.run call function args slots)
  let slots ← b.code.foldlM step #[]
  Slots.number slots function b.result

/-- Call what stands for a function without a body. -/
def Native.run (name : String) (args : List Float) : Run Float := do
  match Native.find? name with
  | none => throw (.unresolvedExtern name)
  | some native =>
    if native.arity = args.length then
      modify (·.push (.native name args))
      return native.value args
    else throw (.arityMismatch name native.arity args.length)

namespace Module

/-- Call a function when `left` more calls may be under way. -/
def call (m : Module) : (left : Nat) → String → List Float → Run Float
  | 0, name, _ => throw (.stackOverflow maxCallDepth name)
  | left + 1, name, args =>
    match m.find? name with
    | none => throw (.unknownFunction name)
    | some decl =>
      if decl.arity = args.length then
        match decl.body with
        | none => Native.run name args
        | some body => do
          modify (·.push (.entered name (maxCallDepth - (left + 1))))
          body.run (m.call left) name args
      else throw (.arityMismatch name decl.arity args.length)

end Module

/-- The outcome of a run. -/
structure Execution where
  result : Except ExecError Float
  acts : Array Act

/-- What the run writes. -/
def Execution.written (e : Execution) : String :=
  e.acts.foldl (fun text act => text ++ act.written) ""

/-- Run a function of the module. -/
def Module.execute (m : Module) (name : String) (args : List Float) : Execution :=
  match m.call maxCallDepth name args #[] with
  | .ok x acts => ⟨.ok x, acts⟩
  | .error e acts => ⟨.error e, acts⟩

end Reckon
