import Reckon.Code.Builder

/-!
# Generator — Error

Why no code can be generated for a form.
-/

namespace Reckon

/-- A failure to generate code. -/
inductive GenError where
  | unknownVariable (name : String)
  | invalidOperator (op : Char)
  | unknownFunction (name : String)
  | arityMismatch (callee : String) (expected found : Nat)
  | duplicateParameter (function param : String)
  | build (e : BuildError)
  deriving DecidableEq

/-- The wording of the error. -/
def GenError.text : GenError → String
  | .unknownVariable name => s!"unknown variable referenced {name}"
  | .invalidOperator op => s!"invalid binary operator {op}"
  | .unknownFunction name => s!"unknown function referenced {name}"
  | .arityMismatch callee expected found =>
    s!"invalid number of args in call {callee} expected {expected} found {found}"
  | .duplicateParameter function param =>
    s!"parameter {param} appears more than once in {function}"
  | .build e => e.text

end Reckon
