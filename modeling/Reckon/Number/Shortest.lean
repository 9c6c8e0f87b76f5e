import Reckon.Number.Binary

/-!
# Number — Shortest

The shortest decimal that reads back as a given double.  A double stands for all reals that round
to it, an interval around `mantissa · 2 ^ exponent`.  For one digit, two digits and so on, the two
neighbours of the value among the decimals with that many digits are tried; the first that lies in
the interval is the answer, of two the nearer, and of two equally near the greater.
-/

namespace Reckon

/-- The decimal `coefficient · 10 ^ exponent`. -/
structure Decimal where
  coefficient : Nat
  exponent : Int
  deriving DecidableEq, Repr

namespace Shortest

/-- A positive value, the ends of the interval that rounds to it, all in quarters of the last
place, and that place as the fraction `scale / parts`. -/
structure Interval where
  value : Nat
  below : Nat
  above : Nat
  closed : Bool
  scale : Nat
  parts : Nat

/-- The power `base ^ e` as a fraction. -/
def power (base : Nat) (e : Int) : Nat × Nat :=
  if 0 ≤ e then (base.pow e.toNat, 1) else (1, base.pow (-e).toNat)

/-- The reals that round to `mantissa · 2 ^ exponent`.  The neighbour below a power of two is only
half as far away as the one above.  A tie rounds to the even mantissa, so the ends belong to an even
one. -/
def Interval.around (mantissa : Nat) (exponent : Int) : Interval :=
  let (scale, parts) := power 2 (exponent - 2)
  let atPower := mantissa = 1 <<< Binary.fractionBits ∧ Binary.leastExponent < exponent
  { value := 4 * mantissa
    below := 4 * mantissa - if atPower then 1 else 2
    above := 4 * mantissa + 2
    closed := mantissa % 2 = 0
    scale, parts }

/-- The point at `n` units of `10 ^ unit` lies in the interval. -/
def Interval.contains (i : Interval) (unit : Int) (n : Nat) : Bool :=
  let (up, down) := power 10 unit
  let point := n * up * i.parts
  let low := i.below * i.scale * down
  let high := i.above * i.scale * down
  if i.closed then low ≤ point && point ≤ high else low < point && point < high

/-- The value in units of `10 ^ unit`, rounded down, and whether the next unit is at least as
near. -/
def Interval.floor (i : Interval) (unit : Int) : Nat × Bool :=
  let (up, down) := power 10 unit
  let exact := i.value * i.scale * down
  let one := up * i.parts
  (exact / one, one ≤ 2 * (exact % one))

/-- The neighbour of the value on the grid of `10 ^ unit` that reads back, if one does. -/
def Interval.hit? (i : Interval) (unit : Int) : Option Nat :=
  let (n, nearerAbove) := i.floor unit
  match i.contains unit n, i.contains unit (n + 1) with
  | true, true => some (if nearerAbove then n + 1 else n)
  | true, false => some n
  | false, true => some (n + 1)
  | false, false => none

/-- The first answer on ever finer grids, at most `count` of them. -/
def Interval.search (i : Interval) (unit : Int) : (count : Nat) → Option Decimal
  | 0 => none
  | count + 1 =>
    match i.hit? unit with
    | some n => some { coefficient := n, exponent := unit }
    | none => i.search (unit - 1) count

/-- The `e` with `10 ^ e ≤ m · 2 ^ q < 10 ^ (e + 1)`, for a positive `m`: an estimate from the
number of bits, which may be one too small, and its correction. -/
def decimalExponent (m : Nat) (q : Int) : Int :=
  let guess := (q + m.log2) * 30103 / 100000
  let (up, down) := power 10 (guess + 1)
  let (scale, parts) := power 2 q
  if up * parts ≤ m * scale * down then guess + 1 else guess

/-- Seventeen digits tell any two doubles apart. -/
def maxDigits : Nat := 17

end Shortest

/-- The decimal `coefficient · 10 ^ exponent` without zeros at the end of its coefficient. -/
def Decimal.trimmed (coefficient : Nat) (exponent : Int) : Decimal :=
  if coefficient ≠ 0 ∧ coefficient % 10 = 0 then trimmed (coefficient / 10) (exponent + 1)
  else ⟨coefficient, exponent⟩
termination_by coefficient
decreasing_by omega

/-- The shortest decimal that rounds to `m · 2 ^ q`, for a positive `m`. -/
def Decimal.shortest (m : Nat) (q : Int) : Decimal :=
  let coarsest := Shortest.decimalExponent m q
  match (Shortest.Interval.around m q).search coarsest Shortest.maxDigits with
  | some d => trimmed d.coefficient d.exponent
  -- seventeen digits always find one
  | none => ⟨0, 0⟩

end Reckon
