import Reckon.Code.Module

/-!
# Code — Builder

A module under construction.  At most one body is open; whatever is emitted goes into it.
-/

namespace Reckon

/-- Why a call of the builder is refused. -/
inductive BuildError where
  | noActiveFunction
  | alreadyBuilding (name : String)
  | parameterOutOfRange (function : String) (index : Nat)
  | invalidFunction (name : String)
  deriving DecidableEq

/-- The wording of the error. -/
def BuildError.text : BuildError → String
  | .noActiveFunction => "no function body is being built"
  | .alreadyBuilding name => s!"function {name} is already being built"
  | .parameterOutOfRange function index => s!"parameter {index} out of range for {function}"
  | .invalidFunction name => s!"failed to verify function {name}"

/-- A body under construction. -/
structure OpenBody where
  function : Handle
  params : List String
  code : Array Instr := #[]

/-- The module so far and the open body. -/
structure Builder where
  module : Module
  current : Option OpenBody := none

/-- A body that has been begun, by the function it was begun for. -/
structure Scope where
  function : Handle
  deriving DecidableEq

/-- A call of the builder. -/
abbrev BuildM := EStateM BuildError Builder

namespace Builder

/-- The name of a module that is given none. -/
def defaultName : String := "moffet"

/-- An empty module of the name. -/
def empty (name : String) : Builder := { module := { name } }

/-- Declare a function, in the place of one of that name. -/
def declare (b : Builder) (name : String) (arity : Nat) : Handle × Builder :=
  (⟨name, arity⟩, { b with module := b.module.declare name arity })

/-- The function of the name, if it is declared. -/
def lookup (b : Builder) (name : String) : Option Handle := (b.module.find? name).map Decl.handle

/-- Emit an instruction and give its register. -/
def emit (i : Instr) : BuildM Reg := fun b =>
  match b.current with
  | none => .error .noActiveFunction b
  | some body =>
    let reg : Reg := ⟨body.code.size⟩
    .ok reg { b with current := some { body with code := body.code.push i } }

/-- Open a body. -/
def begin (function : Handle) (params : List String) : BuildM Scope := fun b =>
  match b.current with
  | some body => .error (.alreadyBuilding body.function.name) b
  | none => .ok ⟨function⟩ { b with current := some { function, params } }

/-- Emit a parameter of the scope's function. -/
def parameter (scope : Scope) (index : Nat) : BuildM Reg :=
  if scope.function.arity ≤ index then
    throw (.parameterOutOfRange scope.function.name index)
  else emit (.param index)

/-- Close the open body and give it to the scope's function. -/
def finish (scope : Scope) (result : Reg) : BuildM Handle := fun b =>
  match b.current with
  | none => .error .noActiveFunction b
  | some opened =>
    let name := scope.function.name
    let body : Body := ⟨opened.params, opened.code, result⟩
    if (b.module.find? name).isSome then
      .ok scope.function { module := b.module.define name body }
    else .error (.invalidFunction name) { b with current := none }

/-- Take the function away, and the open body if it is its own. -/
def discard (b : Builder) (function : Handle) : Builder where
  module := b.module.remove function.name
  current := b.current.filter (·.function.name != function.name)

end Builder

end Reckon
