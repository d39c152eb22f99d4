import HdlAlign.Toml.Value
import HdlAlign.Text.Pattern

/-! Strings, numbers and dates of TOML.  A reader returns what it read and what follows. -/

namespace HdlAlign.Toml

def isBreak (byte : UInt8) : Bool := byte == 0x0A || byte == 0x0D

def isWhite (byte : UInt8) : Bool := byte == 0x20 || byte == 0x09

def hexValue? (byte : UInt8) : Option Nat :=
  if Text.isDigit byte then some (byte.toNat - 48)
  else if 0x61 ≤ byte && byte ≤ 0x66 then some (byte.toNat - 87)
  else if 0x41 ≤ byte && byte ≤ 0x46 then some (byte.toNat - 55)
  else none

def isHex (byte : UInt8) : Bool := (hexValue? byte).isSome

def unicodeEscape? (digits : Text) : Option Text := do
  let values ← digits.mapM hexValue?
  let code := values.foldl (fun n d => n * 16 + d) 0
  if code < 0xD800 || (0xDFFF < code && code ≤ 0x10FFFF) then
    some (Utf8.encodeChar (Char.ofNat code))
  else none

def escape? : Text → Option (Text × Text)
  | [] => none
  | byte :: rest =>
    match byte.toNat with
    | 0x62 => some ([0x08], rest)
    | 0x74 => some ([0x09], rest)
    | 0x6E => some ([0x0A], rest)
    | 0x66 => some ([0x0C], rest)
    | 0x72 => some ([0x0D], rest)
    | 0x22 => some ([0x22], rest)
    | 0x5C => some ([0x5C], rest)
    | 0x75 => if rest.length < 4 then none else
        (unicodeEscape? (rest.take 4)).map fun c => (c, rest.drop 4)
    | 0x55 => if rest.length < 8 then none else
        (unicodeEscape? (rest.take 8)).map fun c => (c, rest.drop 8)
    | _ => none

def basic? : Nat → Text → Option (Text × Text)
  | 0, _ => none
  | _ + 1, [] => none
  | n + 1, byte :: rest =>
    if byte = '"' then some ([], rest)
    else if isBreak byte then none
    else if byte = '\\' then do
      let (c, rest) ← escape? rest
      let (tail, rest) ← basic? n rest
      some (c ++ tail, rest)
    else do
      let (tail, rest) ← basic? n rest
      some (byte :: tail, rest)

/-- Reads a string without escapes on one line, behind its opening quote. -/
def literal? : Text → Option (Text × Text)
  | [] => none
  | byte :: rest =>
    if byte = '\'' then some ([], rest)
    else if isBreak byte then none
    else (literal? rest).map fun (tail, rest) => (byte :: tail, rest)

/-- Reads a run of quotes in a string of several lines.  Three end the string and up to two more in
front of them belong to it; the answer tells whether the string ended. -/
def quoteRun? (quote : UInt8) (text : Text) : Option (Text × Bool × Text) :=
  let run := text.takeWhile (· == quote)
  let rest := text.dropWhile (· == quote)
  if run.length < 3 then some (run, false, rest)
  else if run.length ≤ 5 then some (run.drop 3, true, rest)
  else none

/-- Reads a string of several lines, behind its opening quotes.  A backslash at the end of a line
takes all white space behind it along. -/
def multiline? (quote : UInt8) (escapes : Bool) : Nat → Text → Option (Text × Text)
  | 0, _ => none
  | _ + 1, [] => none
  | n + 1, byte :: rest =>
    if byte = quote then do
      let (run, ended, rest) ← quoteRun? quote (byte :: rest)
      if ended then some (run, rest)
      else
        let (tail, rest) ← multiline? quote escapes n rest
        some (run ++ tail, rest)
    else if escapes && byte = '\\' then
      let gap := rest.takeWhile fun b => isWhite b || isBreak b
      if gap.contains Text.newline then multiline? quote escapes n (rest.drop gap.length)
      else do
        let (c, rest) ← escape? rest
        let (tail, rest) ← multiline? quote escapes n rest
        some (c ++ tail, rest)
    else do
      let (tail, rest) ← multiline? quote escapes n rest
      some (byte :: tail, rest)

def dropFirstBreak : Text → Text
  | 0x0A :: rest => rest
  | 0x0D :: 0x0A :: rest => rest
  | text => text

def string? (text : Text) : Option (Text × Text) :=
  match Text.dropHead? "\"\"\"" text, Text.dropHead? "'''" text, text with
  | some rest, _, _ => multiline? '"' true (rest.length + 1) (dropFirstBreak rest)
  | _, some rest, _ => multiline? '\'' false (rest.length + 1) (dropFirstBreak rest)
  | _, _, byte :: rest =>
    if byte = '"' then basic? (rest.length + 1) rest
    else if byte = '\'' then literal? rest
    else none
  | _, _, [] => none

/-! Numbers -/

/-- Whether every underscore follows a digit and the last byte is a digit, of any base. -/
def underscoresOk (text : Text) : Bool :=
  scan false text
where
  scan (digit : Bool) : Text → Bool
    | [] => digit
    | byte :: rest => if byte = '_' && !digit then false else scan (isHex byte) rest

def dropSign : Text → Text
  | [] => []
  | byte :: rest => if byte = '-' || byte = '+' then rest else byte :: rest

/-- Whether a number begins with a zero that another digit follows. -/
def leadingZero (text : Text) : Bool :=
  match text, dropSign text with
  | _, [_] => false
  | first :: _, 0x30 :: second :: _ =>
    first != '0' || !(second == 'b' || second == 'o' || second == 'x')
  | _, _ => false

def withoutUnderscores (text : Text) : Text := text.filter (· != '_')

def numberIn (base : Nat) (digits : Text) : Nat :=
  digits.foldl (fun n d => n * base + (hexValue? d).getD 0) 0

def integerOk (text : Text) : Bool :=
  let digits := withoutUnderscores (dropSign text)
  let magnitude :=
    match digits with
    | 0x30 :: 0x78 :: hex => numberIn 16 hex
    | 0x30 :: 0x6F :: octal => numberIn 8 octal
    | 0x30 :: 0x62 :: binary => numberIn 2 binary
    | decimal => numberIn 10 decimal
  let limit := if text.head? == some 0x2D then 0x8000000000000000 else 0x8000000000000000 - 1
  underscoresOk text && !leadingZero text && magnitude ≤ limit

/-- The pieces between points and exponent marks, empty ones left out. -/
def floatParts (text : Text) : List Text :=
  scan [] text
where
  flush (part : Text) : List Text := if part.isEmpty then [] else [part.reverse]
  scan (part : Text) : Text → List Text
    | [] => flush part
    | byte :: rest =>
      if byte = '.' || byte = 'e' || byte = 'E' then flush part ++ scan [] rest
      else scan (byte :: part) rest

def pointsOk : Text → Bool
  | [] => true
  | [byte] => byte != '.'
  | byte :: next :: rest => (byte != '.' || Text.isDigit next) && pointsOk (next :: rest)

/-- Whether a decimal is so large that double precision has no finite number for it. -/
def overflows (digits : Text) (exponent : Int) : Bool :=
  let mantissa := numberIn 10 digits
  let size := exponent + (Text.decimal mantissa).length
  if mantissa = 0 || size < 300 then false
  else if 400 < size then true
  else
    let limit := Nat.pow 2 1024 - Nat.pow 2 970
    limit * Nat.pow 10 (-exponent).toNat ≤ mantissa * Nat.pow 10 exponent.toNat

def allDigits (text : Text) : Bool := !text.isEmpty && text.all Text.isDigit

/-- Whether a number without underscores is a finite decimal: digits, an optional fraction and an
optional exponent. -/
def decimalOk (text : Text) : Bool :=
  let body := dropSign text
  let whole := body.takeWhile Text.isDigit
  let rest := body.dropWhile Text.isDigit
  let (fraction, rest) := match rest with
    | 0x2E :: rest => (rest.takeWhile Text.isDigit, rest.dropWhile Text.isDigit)
    | rest => ([], rest)
  let exponent? : Option Int := match rest with
    | [] => some 0
    | mark :: power =>
      if (mark = 'e' || mark = 'E') && allDigits (dropSign power) then
        let n := min (numberIn 10 (dropSign power)) 100000
        some (if power.head? == some 0x2D then -(n : Int) else n)
      else none
  match exponent? with
  | none => false
  | some exponent =>
    !(whole ++ fraction).isEmpty && !overflows (whole ++ fraction) (exponent - fraction.length)

def floatOk (text : Text) : Bool :=
  let parts := floatParts text
  parts.all underscoresOk && !(parts.headD []  |> leadingZero) && pointsOk text &&
    decimalOk (withoutUnderscores text)

/-! Dates -/

def two? : Text → Option (Nat × Text)
  | a :: b :: rest =>
    if Text.isDigit a && Text.isDigit b then some (numberIn 10 [a, b], rest) else none
  | _ => none

def expect? (byte : UInt8) : Text → Option Text
  | [] => none
  | b :: rest => if b = byte then some rest else none

def isLeap (year : Nat) : Bool := year % 4 = 0 && (year % 100 != 0 || year % 400 = 0)

def daysIn (year month : Nat) : Nat :=
  if month = 2 then if isLeap year then 29 else 28
  else if month = 4 || month = 6 || month = 9 || month = 11 then 30
  else 31

def day? (text : Text) : Option Text := do
  let (century, rest) ← two? text
  let (year, rest) ← two? rest
  let rest ← expect? '-' rest
  let (month, rest) ← two? rest
  let rest ← expect? '-' rest
  let (day, rest) ← two? rest
  let year := century * 100 + year
  if 1 ≤ month && month ≤ 12 && 1 ≤ day && day ≤ daysIn year month then some rest else none

def clock? (text : Text) : Option Text := do
  let (hour, rest) ← two? text
  let rest ← expect? ':' rest
  let (minute, rest) ← two? rest
  let rest ← expect? ':' rest
  let (second, rest) ← two? rest
  if hour < 24 && minute < 60 && second < 60 then
    match rest with
    | 0x2E :: fraction =>
      if (fraction.takeWhile Text.isDigit).isEmpty then none
      else some (fraction.dropWhile Text.isDigit)
    | rest => some rest
  else none

def offsetOk (text : Text) : Bool :=
  match text with
  | [0x5A] => true
  | sign :: rest =>
    (sign == '+' || sign == '-') &&
      ((do
        let (hour, rest) ← two? rest
        let rest ← expect? ':' rest
        let (minute, rest) ← two? rest
        some (hour ≤ 24 && minute ≤ 60 && rest.isEmpty)).getD false)
  | [] => false

def dateMark (byte : UInt8) : UInt8 :=
  if byte = 't' || byte = ' ' then 0x54 else if byte = 'z' then 0x5A else byte

/-- Whether a text is a date, a time of day, or both with an optional offset. -/
def dateOk (text : Text) : Bool :=
  let text := text.map dateMark
  match day? text with
  | some [] => true
  | some (mark :: time) =>
    mark == 'T' && match clock? time with
      | some rest => rest.isEmpty || offsetOk rest
      | none => false
  | none => clock? text == some []

end HdlAlign.Toml
