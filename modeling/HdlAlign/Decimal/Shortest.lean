import HdlAlign.Decimal.Double

/-! The fewest digits that read back as the same double. -/

namespace HdlAlign.Decimal

structure Scientific where
  digits : Nat
  exponent : Int
  deriving DecidableEq

/-- The numbers that read back as a double: those between two bounds, given as multiples of a
quarter unit of its last place, with the bounds themselves if the mantissa is even. -/
structure Interval where
  low : Nat
  high : Nat
  closed : Bool
  /-- The exponent of the quarter unit. -/
  exponent : Int

def Interval.of (d : Double) : Interval where
  low := 4 * d.mantissa - if d.mantissa = 0x10000000000000 && -1074 < d.exponent then 1 else 2
  high := 4 * d.mantissa + 2
  closed := d.mantissa % 2 = 0
  exponent := d.exponent - 2

/-- Scales `a · 2 ^ p` and `b · 10 ^ q` to naturals that compare alike. -/
def scale (a : Nat) (p : Int) (b : Nat) (q : Int) : Nat × Nat :=
  (a * Nat.pow 2 p.toNat * Nat.pow 10 (-q).toNat, b * Nat.pow 10 q.toNat * Nat.pow 2 (-p).toNat)

def Interval.has (i : Interval) (s : Scientific) : Bool :=
  let (low, x) := scale i.low i.exponent s.digits s.exponent
  let (high, y) := scale i.high i.exponent s.digits s.exponent
  if i.closed then low ≤ x && y ≤ high else low < x && y < high

/-- The decimal exponent just above a positive fraction: the least `e` in a search range with
the fraction below `10 ^ e`. -/
def magnitude (num den : Nat) : Int :=
  let digits (n : Nat) : Int := (Nat.toDigits 10 n).length
  let guess := digits num - digits den
  if num * Nat.pow 10 (-guess).toNat < den * Nat.pow 10 guess.toNat then guess else guess + 1

def distance (num den : Nat) (s : Scientific) : Nat :=
  let a := num * Nat.pow 10 (-s.exponent).toNat
  let b := s.digits * Nat.pow 10 s.exponent.toNat * den
  max a b - min a b

def candidate? (num den : Nat) (i : Interval) (top : Int) (count : Nat) : Option Scientific :=
  let exponent := top - count
  let below : Scientific :=
    ⟨num * Nat.pow 10 (-exponent).toNat / (den * Nat.pow 10 exponent.toNat), exponent⟩
  let above : Scientific := ⟨below.digits + 1, exponent⟩
  match i.has below, i.has above with
  | true, true =>
    let down := distance num den below
    let up := distance num den above
    if down < up || (down = up && below.digits % 2 = 0) then some below else some above
  | true, false => some below
  | false, true => some above
  | false, false => none

def strip : Nat → Scientific → Scientific
  | 0, s => s
  | n + 1, s => if s.digits % 10 = 0 then strip n ⟨s.digits / 10, s.exponent + 1⟩ else s

def shortest (d : Double) : Scientific :=
  if d.isZero then ⟨0, 0⟩
  else
    let (num, den) := d.fraction
    let i := Interval.of d
    let top := magnitude num den
    let found := ((List.range 17).map (· + 1)).findSome? (candidate? num den i top)
    strip 20 (found.getD ⟨num / den, 0⟩)

def Scientific.positional (s : Scientific) : Text :=
  let digits := Text.decimal s.digits
  if 0 ≤ s.exponent then digits ++ List.replicate s.exponent.toNat 0x30
  else
    let places := (-s.exponent).toNat
    let filled := Text.fillLeft 0x30 (places + 1) digits
    filled.take (filled.length - places) ++ "." ++ filled.drop (filled.length - places)

def Scientific.exponential (s : Scientific) : Text :=
  let digits := Text.decimal s.digits
  let power := s.exponent + digits.length - 1
  let fraction : Text := if digits.length = 1 then "" else "." ++ digits.drop 1
  let sign : Text := if power < 0 then "e-" else "e+"
  digits.take 1 ++ fraction ++ sign ++ Text.decimal power.natAbs

end HdlAlign.Decimal
