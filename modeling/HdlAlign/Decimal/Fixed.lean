import HdlAlign.Decimal.Double

namespace HdlAlign.Decimal

/-- The integer nearest to a fraction; a half is rounded to the even neighbour. -/
def roundHalfEven (num den : Nat) : Nat :=
  let q := num / den
  let twice := 2 * (num % den)
  if den < twice || (twice = den && q % 2 = 1) then q + 1 else q

/-- A number of units of the last place, with a point before the last `places` digits. -/
def withPoint (places units : Nat) : Text :=
  if places = 0 then Text.decimal units
  else
    let digits := Text.fillLeft 0x30 (places + 1) (Text.decimal units)
    digits.take (digits.length - places) ++ "." ++ digits.drop (digits.length - places)

def fixed (places : Nat) (d : Double) : Text :=
  let (num, den) := d.fraction
  let text := withPoint places (roundHalfEven (num * Nat.pow 10 places) den)
  if d.negative then "-" ++ text else text

end HdlAlign.Decimal
