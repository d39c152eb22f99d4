import HdlAlign.Text.Basic

/-! Durations of 64-bit nanoseconds and points in time, as text. -/

namespace HdlAlign.Duration

def largest : Int := 0x8000000000000000 - 1

def least : Int := -(0x8000000000000000)

def clamp (nanoseconds : Int) : Int := max least (min largest nanoseconds)

/-- The nearest multiple of a microsecond; halves are rounded away from zero. -/
def toMicrosecond (nanoseconds : Int) : Int :=
  let units := (nanoseconds.natAbs + 500) / 1000 * 1000
  clamp (if nanoseconds < 0 then -units else units)

/-- A number with a point before the last `places` digits; zeros at the end are left out. -/
def trimmedFraction (places n : Nat) : Text :=
  let fraction := Text.fillLeft 0x30 places (Text.decimal (n % Nat.pow 10 places))
  let fraction := Text.dropTailWhile (· == 0x30) fraction
  Text.decimal (n / Nat.pow 10 places) ++
    if places = 0 || fraction.isEmpty then [] else 0x2E :: fraction

/-- A length of time in the largest units that fit: hours, minutes and seconds, or a fraction of a
second. -/
def magnitudeText (n : Nat) : Text :=
  let minutes := n / 60000000000
  let seconds : Text := trimmedFraction 9 (n % 60000000000) ++ "s"
  if n = 0 then "0s"
  else if n < 1000 then trimmedFraction 0 n ++ "ns"
  else if n < 1000000 then trimmedFraction 3 n ++ "µs"
  else if n < 1000000000 then trimmedFraction 6 n ++ "ms"
  else if minutes = 0 then seconds
  else if minutes < 60 then Text.decimal minutes ++ "m" ++ seconds
  else Text.decimal (minutes / 60) ++ "h" ++ Text.decimal (minutes % 60) ++ "m" ++ seconds

def text (nanoseconds : Int) : Text :=
  let magnitude := magnitudeText nanoseconds.natAbs
  if nanoseconds < 0 then 0x2D :: magnitude else magnitude

end HdlAlign.Duration

namespace HdlAlign.Instant

/-- The year, month and day of a day that is counted from the first of January 1970.  Years are
counted from March, so that the day that comes and goes is the last one, in cycles of 400 years. -/
def civil (day : Int) : Int × Nat × Nat :=
  let shifted := day + 719468
  let cycle := shifted.fdiv 146097
  let ofCycle := (shifted.fmod 146097).toNat
  let year := (ofCycle - ofCycle / 1460 + ofCycle / 36524 - ofCycle / 146096) / 365
  let ofYear := ofCycle - (365 * year + year / 4 - year / 100)
  let march := (5 * ofYear + 2) / 153
  let month := if march < 10 then march + 3 else march - 9
  let start : Int := year + cycle * 400
  (if month ≤ 2 then start + 1 else start, month, ofYear - (153 * march + 2) / 5 + 1)

def padded (width n : Nat) : Text := Text.fillLeft 0x30 width (Text.decimal n)

def yearText (year : Int) : Text :=
  if year < 0 then 0x2D :: padded 4 year.natAbs else padded 4 year.natAbs

/-- A point in time, in microseconds since 1970, as date and time of day. -/
def text (microseconds : Int) : Text :=
  let (year, month, day) := civil (microseconds.fdiv 86400000000)
  let ofDay := (microseconds.fmod 86400000000).toNat
  let seconds := ofDay / 1000000
  let fraction := Text.dropTailWhile (· == 0x30) (padded 6 (ofDay % 1000000))
  yearText year ++ "-" ++ padded 2 month ++ "-" ++ padded 2 day ++ "T" ++
    padded 2 (seconds / 3600) ++ ":" ++ padded 2 (seconds / 60 % 60) ++ ":" ++
    padded 2 (seconds % 60) ++ (if fraction.isEmpty then [] else 0x2E :: fraction) ++ "Z"

end HdlAlign.Instant
