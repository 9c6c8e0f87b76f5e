import Reckon.Token

/-!
# Parser — Error

Why a form cannot be parsed.  Each cause but the last two carries the token that stood where
something else was expected.
-/

namespace Reckon

/-- A failure to parse. -/
inductive ParseError where
  | expectedExpression (found : Token)
  | expectedCloseParen (found : Token)
  | expectedArgumentSeparator (found : Token)
  | expectedFunctionName (found : Token)
  | expectedPrototypeOpen (found : Token)
  | expectedPrototypeClose (found : Token)
  | lex (e : LexError)
  | nestingTooDeep (limit : Nat)
  deriving DecidableEq

/-- The wording of the error. -/
def ParseError.text : ParseError → String
  | .expectedExpression t => s!"unknown token {t.text} when expecting an expression"
  | .expectedCloseParen t => s!"expected ')' but found {t.text}"
  | .expectedArgumentSeparator t => s!"expected ')' or ',' in argument list but found {t.text}"
  | .expectedFunctionName t => s!"expected function name in prototype but found {t.text}"
  | .expectedPrototypeOpen t => s!"expected '(' in prototype but found {t.text}"
  | .expectedPrototypeClose t => s!"expected ')' in prototype but found {t.text}"
  | .lex e => e.text
  | .nestingTooDeep limit => s!"expression nested deeper than {limit} levels"

end Reckon
