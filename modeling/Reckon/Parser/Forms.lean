import Reckon.Form
import Reckon.Parser.Expression

/-!
# Parser — Forms

Prototypes, the three forms, and how to go on after a form that cannot be parsed.
-/

namespace Reckon.Parser

variable {σ : Type} [ItemStream σ]

/-- The identifiers behind the cursor, up to the first token that is none.  Those read before are
given with the last one first. -/
def parameters (read : List String) (p : Parser σ) :
    EStateM.Result ParseError (Parser σ) (List String) :=
  match _h : advance p with
  | .error e q => .error e q
  | .ok _ q =>
    match _hq : q.current with
    | .ident x => parameters (x :: read) q
    | _ => .ok read.reverse q
termination_by ItemStream.size p.stream
decreasing_by exact size_advance_lt _h (by simp [_hq])

/-- The token has to be the one that is wanted. -/
def require (wanted : Token) (error : Token → ParseError) (found : Token) : ParseM σ Unit :=
  if found = wanted then return else throw (error found)

/-- Parse the name of a function and, in brackets, the names of its parameters. -/
def prototype : ParseM σ Prototype := do
  match ← peek with
  | .ident name =>
    require (.char '(') .expectedPrototypeOpen (← next)
    let params ← parameters []
    require (.char ')') .expectedPrototypeClose (← get).current
    advance
    return { name, params }
  | t => throw (.expectedFunctionName t)

/-- Parse a definition: a keyword, a prototype and an expression. -/
def definition : ParseM σ Form := do
  let _ ← take
  let prototype ← prototype
  let body ← expression
  modify (·.note (.parsedDefinition prototype.name))
  return .definition { prototype, body }

/-- Parse a declaration: a keyword and a prototype. -/
def declaration : ParseM σ Form := do
  let _ ← take
  let prototype ← prototype
  modify (·.note (.parsedDeclaration prototype.name))
  return .declaration prototype

/-- Parse an expression that stands for itself. -/
def bareExpression : ParseM σ Form := do
  let body ← expression
  modify (·.note .parsedExpression)
  return .expression { prototype := .anonymous, body }

/-- Parse the form the token begins. -/
def form : Token → ParseM σ Form
  | .defKeyword => definition
  | .externKeyword => declaration
  | _ => bareExpression

/-- Go on until the cursor has passed one item and stands on a token.  Malformed lexemes on the way
are noted. -/
def resume (p : Parser σ) : Parser σ :=
  match _h : advance p with
  | .ok _ q => q
  | .error e q => resume (q.note (.skipped e))
termination_by ItemStream.size p.stream
decreasing_by simpa [note] using size_advance_error_lt _h

end Reckon.Parser
