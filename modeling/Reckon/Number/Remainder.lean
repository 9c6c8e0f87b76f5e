import Reckon.Number.Binary

/-!
# Number — Remainder

The exact remainder of two doubles.
-/

namespace Reckon

/-- What is left of `x` after taking away `y` as often as it goes into it, with the sign of `x`. -/
def remainder (x y : Float) : Float :=
  let noNumber : Float := 0.0 / 0.0
  match Binary.ofFloat x, Binary.ofFloat y with
  | .finite _ _ _, .infinite _ => x
  | .finite negative m p, .finite _ n q =>
    if n = 0 then noNumber
    else
      -- both in units of the smaller power of two
      let unit := min p q
      let left := m <<< (p - unit).toNat % n <<< (q - unit).toNat
      Binary.toFloat negative left unit
  | _, _ => noNumber

end Reckon
