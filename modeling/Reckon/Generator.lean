import Reckon.Form
import Reckon.Generator.Lowering
import Reckon.Journal

/-!
# Generator

Generating the code of forms, one after the other, into one module.  A form that fails leaves no
trace of its function: neither the declaration, nor the signature, nor what had been emitted.  The
variables of a body are bound when it is opened and forgotten when its expression has been emitted
or has failed.
-/

namespace Reckon

/-- The module so far, the signatures of what may be called, and the registers of the variables of
the body being emitted. -/
structure Generator where
  builder : Builder := .empty Builder.defaultName
  signatures : Signatures := {}
  bindings : List (String × Reg) := []

/-- Generating code; what has been generated stays when a form fails. -/
abbrev GenM := EStateM GenError Generator

/-- The first name that repeats one before it; `seen` are those before the list. -/
def firstRepeated (seen : List String) : List String → Option String
  | [] => none
  | x :: xs => if x ∈ seen then some x else firstRepeated (x :: seen) xs

namespace Generator

/-- Forget all signatures and variables.  The module stays. -/
def reset (g : Generator) : Generator := { g with signatures := {}, bindings := [] }

/-- The registered arity of the name. -/
def arity? (g : Generator) (name : String) : Option Nat := g.signatures.arity? name

/-- Declare the function of a prototype and register its arity. -/
def declare (p : Prototype) (g : Generator) : Handle × Generator :=
  let (handle, builder) := g.builder.declare p.name p.params.length
  (handle, { g with builder, signatures := g.signatures.insert p.name p.params.length })

/-- A call of the builder as part of generating code. -/
def build {α : Type} (m : BuildM α) : GenM α := fun g =>
  match m.lift g.builder with
  | .ok a builder => .ok a { g with builder }
  | .error e builder => .error e { g with builder }

/-- Give the variable the register, instead of the one it had. -/
def bindVariable (name : String) (reg : Reg) (g : Generator) : Generator :=
  { g with bindings := g.bindings.filter (·.1 != name) ++ [(name, reg)] }

/-- Forget the variables. -/
def clearBindings (g : Generator) : Generator := { g with bindings := [] }

/-- Emit the parameters from the `index`-th on, and bind them to their registers. -/
def bindParams (scope : Scope) (index : Nat) : List String → GenM Unit
  | [] => return
  | x :: xs => do
    let reg ← build (Builder.parameter scope index)
    modify (bindVariable x reg)
    bindParams scope (index + 1) xs

/-- Emit the code of an expression, with what is registered and bound, and forget the variables,
also if it fails. -/
def lowerBody (e : Expr) : GenM Reg := fun g =>
  match e.lower ⟨g.signatures, g.bindings⟩ g.builder with
  | .ok reg builder => .ok reg (clearBindings { g with builder })
  | .error failure builder => .error failure (clearBindings { g with builder })

/-- Emit the body of a declared function. -/
def emitBody (handle : Handle) (f : Function) : GenM Handle := do
  let scope ← build (Builder.begin handle f.prototype.params)
  modify clearBindings
  bindParams scope 0 f.prototype.params
  let result ← lowerBody f.body
  build (Builder.finish scope result)

/-- Generate a function.  Its own signature is known in its body. -/
def define (f : Function) : GenM Handle := fun g =>
  let name := f.prototype.name
  match firstRepeated [] f.prototype.params with
  | some param => .error (.duplicateParameter name param) g
  | none =>
    let (handle, declared) := g.declare f.prototype
    match emitBody handle f declared with
    | .ok handle g => .ok handle g
    | .error e g =>
      let builder := g.builder.discard handle
      .error e { g with builder, signatures := g.signatures.erase name }

/-- Generate a form. -/
def generate : Form → GenM Handle
  | .definition f => define f
  | .expression f => define f
  | .declaration p => fun g =>
    let (handle, g) := g.declare p
    .ok handle g

/-- What is noted when a form has been generated, or taken back.  Repeated parameters are found
before there is anything to take back. -/
def notes (form : Form) : Except GenError Handle → List Event
  | .ok _ => [.generated form.prototype.name]
  | .error (.duplicateParameter _ _) => []
  | .error _ => [.discarded form.prototype.name]

end Generator

end Reckon
