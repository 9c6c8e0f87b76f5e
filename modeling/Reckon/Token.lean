import Reckon.Number.Text

/-!
# Token

The tokens of the language, the one way a lexeme can be malformed, and how both read in messages.
-/

namespace Reckon

/-- A token. -/
inductive Token where
  /-- the end of the input -/
  | eof
  /-- the keyword that opens a definition -/
  | defKeyword
  /-- the keyword that declares a function from outside -/
  | externKeyword
  | ident (name : String)
  | number (value : Float)
  /-- any other single character -/
  | char (c : Char)
  deriving DecidableEq

/-- A token as messages name it. -/
def Token.text : Token → String
  | .eof => "end of input"
  | .defKeyword => "'def'"
  | .externKeyword => "'extern'"
  | .ident name => s!"identifier '{name}'"
  | .number value => "number " ++ plainText value
  | .char c => s!"'{c}'"

/-- What is wrong with a lexeme. -/
inductive LexError where
  /-- a run of digits and points that is no number -/
  | invalidNumber (literal : String)
  deriving DecidableEq

/-- The wording of the error. -/
def LexError.text : LexError → String
  | .invalidNumber literal => s!"invalid number literal {literal}"

/-- What the scanner finds next: a token or a malformed lexeme. -/
inductive Item where
  | token (t : Token)
  | malformed (e : LexError)
  deriving DecidableEq

/-- The end of the input, as an item. -/
abbrev Item.eof : Item := .token .eof

/-- The token of a whole word: a keyword or an identifier. -/
def Token.ofWord (word : String) : Token :=
  if word = "def" then .defKeyword
  else if word = "extern" then .externKeyword
  else .ident word

end Reckon
