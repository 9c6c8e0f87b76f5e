import Reckon.Expr

/-!
# Form

The forms a session takes one at a time: definitions, declarations of functions from outside, and
bare expressions, which become functions without parameters under a name no identifier can have.
-/

namespace Reckon

/-- The name of a function and those of its parameters. -/
structure Prototype where
  name : String
  params : List String
  deriving DecidableEq

/-- The name of the function around a bare expression.  It does not begin with a letter, so no
program can call or define it. -/
def anonymousName : String := "__anon_expr"

/-- The prototype around a bare expression. -/
def Prototype.anonymous : Prototype := ⟨anonymousName, []⟩

/-- A function with its body. -/
structure Function where
  prototype : Prototype
  body : Expr

/-- A form. -/
inductive Form where
  | definition (function : Function)
  | declaration (prototype : Prototype)
  | expression (function : Function)

namespace Form

/-- What kind of form it is. -/
inductive Kind where
  | definition
  | declaration
  | expression
  deriving DecidableEq

/-- The kind of the form. -/
def kind : Form → Kind
  | .definition _ => .definition
  | .declaration _ => .declaration
  | .expression _ => .expression

/-- The prototype of the function the form is about. -/
def prototype : Form → Prototype
  | .definition f => f.prototype
  | .declaration p => p
  | .expression f => f.prototype

end Form

end Reckon
