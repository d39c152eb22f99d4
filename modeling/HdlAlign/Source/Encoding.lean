import HdlAlign.Text.Utf8

/-! The forms in which text is stored: plain bytes, UTF-8 behind a mark, or UTF-16. -/

namespace HdlAlign

inductive Storage where
  | plain
  | utf8Mark
  | utf16 (bigEndian : Bool)
  deriving DecidableEq

namespace Storage

def utf8Bytes : Text := [0xEF, 0xBB, 0xBF]

def mark : Storage → Text
  | plain => []
  | utf8Mark => utf8Bytes
  | utf16 true => [0xFE, 0xFF]
  | utf16 false => [0xFF, 0xFE]

def ofRaw (raw : Text) : Storage :=
  if raw.startsWith utf8Bytes then utf8Mark
  else if raw.startsWith (mark (utf16 true)) then utf16 true
  else if raw.startsWith (mark (utf16 false)) then utf16 false
  else plain

/-! UTF-16 -/

def isSurrogate (unit : Nat) : Bool := 0xD800 ≤ unit && unit ≤ 0xDFFF

def isHigh (unit : Nat) : Bool := 0xD800 ≤ unit && unit ≤ 0xDBFF

def isLow (unit : Nat) : Bool := 0xDC00 ≤ unit && unit ≤ 0xDFFF

def unitOf (bigEndian : Bool) (a b : UInt8) : Nat :=
  if bigEndian then a.toNat * 256 + b.toNat else b.toNat * 256 + a.toNat

def bytesOf (bigEndian : Bool) (unit : Nat) : Text :=
  if bigEndian then [(unit / 256).toUInt8, unit.toUInt8] else [unit.toUInt8, (unit / 256).toUInt8]

def pair (high low : Nat) : Char :=
  if isHigh high && isLow low then
    Char.ofNat (0x10000 + (high - 0xD800) * 0x400 + (low - 0xDC00))
  else Utf8.replacement

/-- A unit on its own; a surrogate becomes the replacement character. -/
def single (unit : Nat) : Char := if isSurrogate unit then Utf8.replacement else Char.ofNat unit

/-- Reads units of two bytes.  A surrogate takes a low surrogate behind it along, whatever the
two make together; an odd last byte becomes the replacement character. -/
def decode16 (bigEndian : Bool) : Text → List Char
  | [] => []
  | [_] => [Utf8.replacement]
  | [a, b] => [single (unitOf bigEndian a b)]
  | [a, b, _] => [single (unitOf bigEndian a b), Utf8.replacement]
  | a :: b :: c :: d :: rest =>
    let first := unitOf bigEndian a b
    let second := unitOf bigEndian c d
    if isSurrogate first && isLow second then pair first second :: decode16 bigEndian rest
    else single first :: decode16 bigEndian (c :: d :: rest)

def encode16 (bigEndian : Bool) (c : Char) : Text :=
  let code := c.toNat
  if code < 0x10000 then bytesOf bigEndian code
  else
    bytesOf bigEndian (0xD800 + (code - 0x10000) / 0x400) ++
      bytesOf bigEndian (0xDC00 + (code - 0x10000) % 0x400)

/-! Repair of ill-formed UTF-8 -/

/-- Replaces every maximal part of a sequence that breaks off by one replacement character. -/
def repair : Text → Text
  | [] => []
  | a :: rest =>
    match Utf8.announced a with
    | 1 => a :: repair rest
    | 2 =>
      match rest with
      | b :: tail =>
        if Utf8.isContinuation b then a :: b :: repair tail else broken ++ repair (b :: tail)
      | [] => broken
    | 3 =>
      match rest with
      | b :: tail =>
        if Utf8.isSecond a b then
          match tail with
          | c :: tail =>
            if Utf8.isContinuation c then a :: b :: c :: repair tail
            else broken ++ repair (c :: tail)
          | [] => broken
        else broken ++ repair (b :: tail)
      | [] => broken
    | 4 =>
      match rest with
      | b :: tail =>
        if Utf8.isSecond a b then
          match tail with
          | c :: tail =>
            if Utf8.isContinuation c then
              match tail with
              | d :: tail =>
                if Utf8.isContinuation d then a :: b :: c :: d :: repair tail
                else broken ++ repair (d :: tail)
              | [] => broken
            else broken ++ repair (c :: tail)
          | [] => broken
        else broken ++ repair (b :: tail)
      | [] => broken
    | _ => broken ++ repair rest
where
  broken : Text := Utf8.encodeChar Utf8.replacement

/-! Stored text -/

def decode (storage : Storage) (raw : Text) : Text :=
  let body := raw.drop storage.mark.length
  match storage with
  | plain | utf8Mark => body
  | utf16 bigEndian => Utf8.encode (decode16 bigEndian body)

def encode (storage : Storage) (text : Text) : Text :=
  match storage with
  | plain => text
  | utf8Mark => utf8Mark.mark ++ repair text
  | utf16 bigEndian =>
    (utf16 bigEndian).mark ++ (Utf8.chars text).flatMap (encode16 bigEndian)

end Storage

/-! Line endings -/

def dropReturns : Text → Text
  | [] => []
  | [a] => [a]
  | a :: b :: rest =>
    if a = 0x0D && b = Text.newline then b :: dropReturns rest else a :: dropReturns (b :: rest)

def hasReturns : Text → Bool
  | a :: b :: rest => (a == 0x0D && b == Text.newline) || hasReturns (b :: rest)
  | _ => false

/-- Puts a carriage return before every newline. -/
def restoreReturns (text : Text) : Text :=
  text.flatMap fun byte => if byte = Text.newline then [0x0D, byte] else [byte]

end HdlAlign
