/-!
# Number — Literal

The number literals: digits with at most one point among, before or behind them.
-/

namespace Reckon

/-- The character may stand in a number literal. -/
def isNumberChar (c : Char) : Bool := c.isDigit || c == '.'

/-- The value of a run of digits. -/
def digitsValue (ds : List Char) : Nat :=
  ds.foldl (fun n d => n * 10 + (d.toNat - '0'.toNat)) 0

/-- The double nearest to the literal, if the run of digits and points is one: it needs a digit and
allows one point. -/
def literalValue? (run : List Char) : Option Float :=
  let digits := run.filter (· != '.')
  if digits.isEmpty || 1 < run.count '.' then none
  else
    let places := ((run.dropWhile (· != '.')).drop 1).length
    some (Float.ofScientific (digitsValue digits) true places)

end Reckon
