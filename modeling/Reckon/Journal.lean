import Reckon.Parser.Error

/-!
# Journal

What the parts of a session note about their work, in order.
-/

namespace Reckon

/-- Something worth noting. -/
inductive Event where
  | readFailed (reason : String)
  | lexed (t : Token)
  | parsedDefinition (name : String)
  | parsedDeclaration (name : String)
  | parsedExpression
  | generated (name : String)
  | discarded (name : String)
  | recovering (e : ParseError)
  | skipped (e : ParseError)
  | entered (name : String) (depth : Nat)
  deriving DecidableEq

/-- How much an event matters. -/
inductive Level where
  | error
  | info
  | debug
  | trace
  deriving DecidableEq

/-- The part an event comes from. -/
inductive Origin where
  | lexer
  | parser
  | generator
  | session
  | execution
  deriving DecidableEq

namespace Level

/-- The place of the level, the gravest first. -/
def rank : Level → Nat
  | .error => 0
  | .info => 1
  | .debug => 2
  | .trace => 3

/-- Events of level `a` are shown to one who asks for `b`. -/
def shownAt (a b : Level) : Bool := a.rank ≤ b.rank

end Level

namespace Event

/-- How much the event matters. -/
def level : Event → Level
  | .readFailed _ => .error
  | .lexed _ => .trace
  | .entered _ _ => .trace
  | _ => .debug

/-- The part the event comes from. -/
def origin : Event → Origin
  | .readFailed _ => .lexer
  | .lexed _ => .lexer
  | .parsedDefinition _ => .parser
  | .parsedDeclaration _ => .parser
  | .parsedExpression => .parser
  | .generated _ => .generator
  | .discarded _ => .generator
  | .recovering _ => .session
  | .skipped _ => .session
  | .entered _ _ => .execution

/-- The wording of the event. -/
def text : Event → String
  | .readFailed reason => s!"failed to read input: {reason}"
  | .lexed t => s!"lexed {t.text}"
  | .parsedDefinition name => s!"parsed definition of {name}"
  | .parsedDeclaration name => s!"parsed extern {name}"
  | .parsedExpression => "parsed top-level expression"
  | .generated name => s!"generated {name}"
  | .discarded name => s!"discarding {name} after failed codegen"
  | .recovering e => s!"recovering from parse error: {e.text}"
  | .skipped e => s!"error while skipping token: {e.text}"
  | .entered name depth => s!"executing {name} at depth {depth}"

end Event

/-- The events so far, the first one first. -/
abbrev Journal := Array Event

end Reckon
