import HdlAlign.Text.Basic

namespace HdlAlign

/-- A finite binary number `± mantissa · 2 ^ exponent`, as double precision holds it. -/
structure Double where
  negative : Bool
  mantissa : Nat
  exponent : Int
  deriving DecidableEq

namespace Double

def fractionBits : Nat := 52

/-- Takes the bits of a double apart; the patterns of infinities and of no number read as if
they were numbers. -/
def ofBits (bits : UInt64) : Double :=
  let n := bits.toNat
  let fraction := n % 0x10000000000000
  let biased : Nat := n / 0x10000000000000 % 2048
  { negative := 0x8000000000000000 ≤ n
    mantissa := if biased = 0 then fraction else fraction + 0x10000000000000
    exponent := ((if biased = 0 then 1 else biased : Nat) : Int) - 1075 }

def ofFloat (x : Float) : Double := ofBits x.toBits

def isZero (d : Double) : Bool := d.mantissa == 0

def fraction (d : Double) : Nat × Nat :=
  if 0 ≤ d.exponent then (d.mantissa * Nat.pow 2 d.exponent.toNat, 1)
  else (d.mantissa, Nat.pow 2 (-d.exponent).toNat)

end Double

end HdlAlign
