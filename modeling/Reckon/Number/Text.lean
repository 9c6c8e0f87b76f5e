import Reckon.Number.Shortest

/-!
# Number — Text

Two ways to write a number, both with the fewest digits that read back: plain, always positional and
without a needless point, and exact, which always shows that it is no integer and turns to powers of
ten for very large and very small numbers.
-/

namespace Reckon

/-- How the digits of a number are laid out. -/
structure Layout where
  /-- a whole number is written with a point and a zero -/
  pointed : Bool
  /-- the decimal exponents of the leading digit that are written positionally, if not all are -/
  positional : Option (Int × Int)

/-- Always positional: `1`, `0.1`, `100000000000000000000`. -/
def Layout.plain : Layout := ⟨false, none⟩

/-- Positional from `0.0001` up to below `1e16`: `1.0`, `0.1`, `1e20`. -/
def Layout.exact : Layout := ⟨true, some (-4, 15)⟩

namespace Decimal

/-- The digits of the coefficient. -/
def digits (d : Decimal) : List Char := Nat.toDigits 10 d.coefficient

/-- The exponent of the leading digit. -/
def leading (d : Decimal) : Int := d.exponent + d.digits.length - 1

/-- The digits around a point in their places. -/
def positional (pointed : Bool) (d : Decimal) : List Char :=
  let ds := d.digits
  if 0 ≤ d.exponent then
    ds ++ List.replicate d.exponent.toNat '0' ++ if pointed then ['.', '0'] else []
  else
    let places := (-d.exponent).toNat
    if places < ds.length then
      ds.take (ds.length - places) ++ '.' :: ds.drop (ds.length - places)
    else
      '0' :: '.' :: (List.replicate (places - ds.length) '0' ++ ds)

/-- One digit before the point, and a power of ten. -/
def scientific (d : Decimal) : List Char :=
  let mantissa := match d.digits with
    | first :: second :: rest => first :: '.' :: second :: rest
    | ds => ds
  mantissa ++ 'e' :: (toString d.leading).toList

/-- The decimal as the layout has it. -/
def layOut (l : Layout) (d : Decimal) : List Char :=
  match l.positional with
  | none => d.positional l.pointed
  | some (low, high) =>
    if low ≤ d.leading ∧ d.leading ≤ high then d.positional l.pointed else d.scientific

end Decimal

/-- The text of a number.  Zero has a sign; what is no number has none. -/
def Layout.write (l : Layout) (x : Float) : String :=
  let signed (negative : Bool) (text : List Char) : String :=
    String.ofList (if negative then '-' :: text else text)
  match Binary.ofFloat x with
  | .nan => "NaN"
  | .infinite negative => signed negative "inf".toList
  | .finite negative 0 _ => signed negative (Decimal.positional l.pointed ⟨0, 0⟩)
  | .finite negative m q => signed negative ((Decimal.shortest m q).layOut l)

/-- The number written plainly. -/
def plainText (x : Float) : String := Layout.plain.write x

/-- The number written so that it shows it is no integer. -/
def exactText (x : Float) : String := Layout.exact.write x

end Reckon
