import HdlAlign.Text.Numeral
import HdlAlign.Text.Quoted

/-! Values of options on the command line. -/

namespace HdlAlign.Command

inductive Kind where
  | toggle
  | number
  | text
  | duration
  deriving DecidableEq

inductive Value where
  | toggle (value : Bool)
  | number (value : Int)
  | text (value : Text)
  | duration (nanoseconds : Int)
  deriving DecidableEq

/-! Truth values and numbers -/

def bool? (text : Text) : Option Bool :=
  if (Text.literals ["1", "t", "T", "true", "TRUE", "True"]).contains text then some true
  else if (Text.literals ["0", "f", "F", "false", "FALSE", "False"]).contains text then some false
  else none

def digit? (byte : UInt8) : Option Nat :=
  let low := Text.lowerAscii byte
  if Text.isDigit byte then some (byte.toNat - 48)
  else if Text.isLower low then some (low.toNat - 87)
  else none

/-- The base that the front of a number announces, and what follows.  A zero alone stands for
octal digits. -/
def splitBase (text : Text) : Nat × Text :=
  match text with
  | 0x30 :: mark :: digit :: rest =>
    match (Text.lowerAscii mark).toNat with
    | 0x62 => (2, digit :: rest)
    | 0x6F => (8, digit :: rest)
    | 0x78 => (16, digit :: rest)
    | _ => (8, mark :: digit :: rest)
  | 0x30 :: rest => (8, rest)
  | text => (10, text)

/-- Reads digits to the end and passes over underscores; the first fault from the left counts. -/
def digitsIn (base value : Nat) : Text → Except Numeral.Fault Nat
  | [] => .ok value
  | byte :: rest =>
    if byte = '_' then digitsIn base value rest
    else match digit? byte with
      | none => .error .malformed
      | some digit =>
        if base ≤ digit then .error .malformed
        else if 0x10000000000000000 ≤ value * base + digit then .error .outOfRange
        else digitsIn base (value * base + digit) rest

/-- Whether every underscore stands between digits, or between the mark of a base and a digit. -/
def underscoresOk (text : Text) : Bool :=
  match text with
  | 0x30 :: mark :: rest =>
    match (Text.lowerAscii mark).toNat with
    | 0x62 | 0x6F => scan false true false rest
    | 0x78 => scan true true false rest
    | _ => scan false false false (0x30 :: mark :: rest)
  | text => scan false false false text
where
  scan (hex digit under : Bool) : Text → Bool
    | [] => !under
    | byte :: rest =>
      let low := Text.lowerAscii byte
      if Text.isDigit byte || (hex && 0x61 ≤ low && low ≤ 0x66) then scan hex true false rest
      else if byte = '_' then digit && scan hex false true rest
      else !under && scan hex false false rest

def natural (text : Text) : Except Numeral.Fault Nat := do
  if text.isEmpty then throw .malformed
  let (base, digits) := splitBase text
  let value ← digitsIn base 0 digits
  if text.contains 0x5F && !underscoresOk text then throw .malformed
  return value

def number (text : Text) : Except Numeral.Fault Int :=
  let negative := text.head? = some 0x2D
  let digits := if negative || text.head? = some 0x2B then text.drop 1 else text
  match natural digits with
  | .error fault => .error fault
  | .ok n =>
    if negative then if n ≤ 0x8000000000000000 then .ok (-n) else .error .outOfRange
    else if n < 0x8000000000000000 then .ok n else .error .outOfRange

/-! Durations -/

inductive DurationError where
  | invalid
  | noUnit
  | unknownUnit (unit : Text)
  deriving DecidableEq

def unit? (name : Text) : Option Nat :=
  (([("ns", 1), ("us", 1000), ("µs", 1000), ("μs", 1000), ("ms", 1000000), ("s", 1000000000),
    ("m", 60000000000), ("h", 3600000000000)] : List (String × Nat)).find?
      fun unit => Text.ofString unit.1 = name).map Prod.snd

def decimalOf (digits : Text) : Nat := digits.foldl (fun n d => n * 10 + (d.toNat - 48)) 0

def isNumberByte (byte : UInt8) : Bool := byte == '.' || Text.isDigit byte

def durationParts : Nat → Nat → Text → Except DurationError Nat
  | 0, _, _ => .error .invalid
  | _ + 1, total, [] => .ok total
  | n + 1, total, text =>
    let whole := text.takeWhile Text.isDigit
    let rest := text.dropWhile Text.isDigit
    let (fraction, rest) := match rest with
      | 0x2E :: rest => (rest.takeWhile Text.isDigit, rest.dropWhile Text.isDigit)
      | rest => ([], rest)
    let name := rest.takeWhile (!isNumberByte ·)
    if (whole.isEmpty && fraction.isEmpty) || 0x8000000000000000 < decimalOf whole then
      .error .invalid
    else if name.isEmpty then .error .noUnit
    else match unit? name with
      | none => .error (.unknownUnit name)
      | some unit =>
        let total := total + decimalOf whole * unit +
          decimalOf fraction * unit / Nat.pow 10 fraction.length
        if 0x8000000000000000 < total then .error .invalid
        else durationParts n total (rest.dropWhile (!isNumberByte ·))

def duration (text : Text) : Except DurationError Int :=
  let negative := text.head? = some 0x2D
  let body := if negative || text.head? = some 0x2B then text.drop 1 else text
  if body = [0x30] then .ok 0
  else if body.isEmpty then .error .invalid
  else match durationParts (body.length + 1) 0 body with
    | .error error => .error error
    | .ok n =>
      if negative then .ok (-n) else if n < 0x8000000000000000 then .ok n else .error .invalid

def quoteBytes (text : Text) : Text :=
  "\"" ++ text.flatMap (fun byte =>
    if byte < 0x20 || 0x80 ≤ byte then Text.ofString "\\x" ++ Text.hex [byte]
    else if byte = '"' || byte = '\\' then [0x5C, byte]
    else [byte]) ++ "\""

def DurationError.message (text : Text) : DurationError → Text
  | invalid => "time: invalid duration " ++ quoteBytes text
  | noUnit => "time: missing unit in duration " ++ quoteBytes text
  | unknownUnit unit =>
    "time: unknown unit " ++ quoteBytes unit ++ " in duration " ++ quoteBytes text

def Kind.read (kind : Kind) (written : Text) : Except Text Value :=
  match kind with
  | .toggle =>
    match bool? written with
    | some b => .ok (.toggle b)
    | none => .error ("strconv.ParseBool: parsing " ++ Text.quote written ++ ": invalid syntax")
  | .number =>
    match Command.number written with
    | .ok n => .ok (.number n)
    | .error fault =>
      .error ("strconv.ParseInt: parsing " ++ Text.quote written ++ ": " ++ fault.message)
  | .text => .ok (.text written)
  | .duration =>
    match Command.duration written with
    | .ok n => .ok (.duration n)
    | .error error => .error (error.message written)

end HdlAlign.Command
