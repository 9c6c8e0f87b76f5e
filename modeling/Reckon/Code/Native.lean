import Reckon.Number.Remainder
import Reckon.Number.Text

/-!
# Code — Native

The functions that declarations without a body stand for.
-/

namespace Reckon

/-- A built-in function. -/
inductive Native where
  | unary (f : Float → Float)
  | binary (f : Float → Float → Float)
  /-- writes a text and gives zero -/
  | writer (write : Float → String)

namespace Native

/-- The number of arguments a built-in function takes. -/
def arity : Native → Nat
  | .unary _ => 1
  | .binary _ => 2
  | .writer _ => 1

/-- The value of a call with as many arguments as the arity. -/
def value : Native → List Float → Float
  | .unary f, [x] => f x
  | .binary f, [x, y] => f x y
  | .writer _, [_] => 0
  | _, _ => 0.0 / 0.0

/-- What a call writes. -/
def written : Native → List Float → String
  | .writer write, [x] => write x
  | _, _ => ""

/-- The character whose code is the number, cut to a whole number from 0 to 255. -/
def character (x : Float) : String := (Char.ofNat x.toUInt8.toNat).toString

/-- The built-in functions by name. -/
def table : List (String × Native) :=
  [("sin", .unary Float.sin),
   ("cos", .unary Float.cos),
   ("tan", .unary Float.tan),
   ("atan", .unary Float.atan),
   ("sqrt", .unary Float.sqrt),
   ("exp", .unary Float.exp),
   ("log", .unary Float.log),
   ("fabs", .unary Float.abs),
   ("floor", .unary Float.floor),
   ("ceil", .unary Float.ceil),
   ("atan2", .binary Float.atan2),
   ("pow", .binary Float.pow),
   ("fmod", .binary remainder),
   ("putchard", .writer character),
   ("printd", .writer fun x => plainText x ++ "\n")]

/-- The built-in function of the name. -/
def find? (name : String) : Option Native := table.lookup name

end Native

end Reckon
