/-!
# Number — Binary

The exact value of a floating point number: `±mantissa · 2 ^ exponent`, or no number, or infinite.
-/

namespace Reckon

/-- A double, taken apart. -/
inductive Binary where
  | nan
  | infinite (negative : Bool)
  | finite (negative : Bool) (mantissa : Nat) (exponent : Int)

namespace Binary

/-- The number of bits a double keeps of its mantissa. -/
def fractionBits : Nat := 52

/-- The exponent of the numbers below the least normal one. -/
def leastExponent : Int := -1074

/-- Take a double apart.  A normal number has one more mantissa bit than is stored. -/
def ofFloat (x : Float) : Binary :=
  let bits := x.toBits.toNat
  let negative := bits >>> 63 == 1
  let biased := bits >>> fractionBits % 2048
  let fraction := bits % (1 <<< fractionBits)
  if biased = 2047 then
    if fraction = 0 then .infinite negative else .nan
  else if biased = 0 then .finite negative fraction leastExponent
  else .finite negative (fraction + 1 <<< fractionBits) (leastExponent + (biased - 1 : Nat))

/-- The double `±mantissa · 2 ^ exponent` for a mantissa below `2 ^ 53` and an exponent that is not
below the least one, when that value is a double. -/
def toFloat (negative : Bool) (mantissa : Nat) (exponent : Int) : Float :=
  let shift := fractionBits - mantissa.log2
  -- as far as the mantissa can be moved up without the exponent falling below the least one
  let up := min shift (exponent - leastExponent).toNat
  let m := mantissa <<< up
  let biased := if m < 1 <<< fractionBits then 0 else (exponent - up - leastExponent).toNat + 1
  let sign := if negative then 1 <<< 63 else 0
  Float.ofBits (UInt64.ofNat (sign + biased <<< fractionBits + m % (1 <<< fractionBits)))

end Binary

end Reckon
