import HdlAlign.Toml.Scalar

/-! From bytes to statements.  Every reader answers with nothing where the text is malformed. -/

namespace HdlAlign.Toml

def skipWhite (text : Text) : Text := text.dropWhile isWhite

def skipComment (text : Text) : Text :=
  match text with
  | 0x23 :: rest => rest.dropWhile (!isBreak ·)
  | text => text

def skipGap : Nat → Text → Text
  | 0, text => text
  | n + 1, text =>
    match text with
    | [] => []
    | byte :: rest =>
      if isWhite byte || isBreak byte then skipGap n rest
      else if byte = '#' then skipGap n (skipComment (byte :: rest))
      else byte :: rest

def keyPart? (text : Text) : Option (Text × Text) :=
  match text with
  | [] => none
  | byte :: rest =>
    if byte = '"' then basic? (rest.length + 1) rest
    else if byte = '\'' then literal? rest
    else
      let name := text.takeWhile isBare
      if name.isEmpty then none else some (name, text.dropWhile isBare)

/-- Reads a key of any number of parts and the white space behind it. -/
def key? : Nat → Text → Option (Key × Text)
  | 0, _ => none
  | n + 1, text => do
    let (part, rest) ← keyPart? (skipWhite text)
    match skipWhite rest with
    | 0x2E :: rest =>
      let (parts, rest) ← key? n rest
      some (part :: parts, rest)
    | rest => some ([part], rest)

/-! Numbers and dates take in every byte that might belong to them and are judged afterwards. -/

def isDateByte (byte : UInt8) : Bool :=
  Text.isDigit byte || byte == '-' || byte == ':' || byte == '.' || byte == '+' || byte == ' ' ||
    byte == 'T' || byte == 't' || byte == 'Z' || byte == 'z'

def isFloatByte (byte : UInt8) : Bool :=
  Text.isDigit byte || byte == '_' || byte == '.' || byte == '-' || byte == '+' || byte == 'e' ||
    byte == 'E'

def isFloatMark (byte : UInt8) : Bool := byte == '.' || byte == 'e' || byte == 'E'

def isIntegerByte (byte : UInt8) : Bool := Text.isDigit byte || byte == '_'

def judged (ok : Bool) (value : Value) (rest : Text) : Option (Value × Text) :=
  if ok then some (value, rest) else none

def date? (text : Text) : Option (Value × Text) :=
  let token := Text.dropTailWhile (· == Text.blank) (text.takeWhile isDateByte)
  judged (dateOk token) .date (text.dropWhile isDateByte)

def float? (text : Text) : Option (Value × Text) :=
  let token := dropSign text |>.takeWhile isFloatByte
  let token := text.take (text.length - (dropSign text).length) ++ token
  judged (floatOk token) .number (text.drop token.length)

def integer? (text : Text) (size : Nat) : Option (Value × Text) :=
  judged (integerOk (text.take size)) .number (text.drop size)

def based? (isDigit : UInt8 → Bool) (text : Text) : Option (Value × Text) :=
  let digits := text.drop 2
  if (digits.head?.map isDigit).getD false then
    integer? text (2 + (digits.takeWhile fun b => isDigit b || b == '_').length)
  else none

def unsigned? (text : Text) : Option (Value × Text) :=
  match text with
  | 0x30 :: 0x78 :: _ => based? isHex text
  | 0x30 :: 0x6F :: _ => based? (fun b => Text.isDigit b && b < 0x38) text
  | 0x30 :: 0x62 :: _ => based? (fun b => b == '0' || b == '1') text
  | _ =>
    match text.dropWhile Text.isDigit with
    | [] => integer? text text.length
    | mark :: _ =>
      if mark = '-' || mark = ':' then date? text
      else
        let size := (text.takeWhile isIntegerByte).length
        match text.drop size with
        | [] => integer? text size
        | mark :: _ => if isFloatMark mark then float? text else integer? text size

def signed? (text : Text) : Option (Value × Text) :=
  let digits := dropSign text
  match Text.dropHead? "inf" digits, Text.dropHead? "nan" digits with
  | some rest, _ => some (.number, rest)
  | _, some rest => some (.number, rest)
  | none, none =>
    if !(digits.head?.map Text.isDigit).getD false then none
    else
      let size := 1 + (digits.takeWhile isIntegerByte).length
      match text.drop size with
      | [] => integer? text size
      | mark :: _ => if isFloatMark mark then float? text else integer? text size

mutual

def value? : Nat → Text → Option (Value × Text)
  | 0, _ => none
  | n + 1, text =>
    match text with
    | [] => none
    | byte :: rest =>
      if byte = '"' || byte = '\'' then (string? text).map fun (s, rest) => (.text s, rest)
      else if byte = '[' then (items? n rest).map fun (items, rest) => (.array items, rest)
      else if byte = '\x7b' then
        match skipWhite rest with
        | 0x7D :: rest => some (.inline [], rest)
        | rest => (members? n rest).map fun (members, rest) => (.inline members, rest)
      else if Text.isDigit byte then unsigned? text
      else if byte = '+' || byte = '-' then signed? text
      else match Text.dropHead? "true" text, Text.dropHead? "false" text,
          Text.dropHead? "inf" text, Text.dropHead? "nan" text with
        | some rest, _, _, _ => some (.boolean true, rest)
        | _, some rest, _, _ => some (.boolean false, rest)
        | _, _, some rest, _ => some (.number, rest)
        | _, _, _, some rest => some (.number, rest)
        | _, _, _, _ => none

/-- Reads the items of an array up to its closing bracket; a comma may follow the last. -/
def items? : Nat → Text → Option (List Value × Text)
  | 0, _ => none
  | n + 1, text =>
    match skipGap text.length text with
    | 0x5D :: rest => some ([], rest)
    | text => do
      let (item, rest) ← value? n text
      match skipGap rest.length rest with
      | 0x5D :: rest => some ([item], rest)
      | 0x2C :: rest =>
        let (items, rest) ← items? n rest
        some (item :: items, rest)
      | _ => none

def members? : Nat → Text → Option (List (Key × Value) × Text)
  | 0, _ => none
  | n + 1, text => do
    let (key, rest) ← key? (text.length + 1) text
    let rest ← expect? '=' rest
    let (value, rest) ← value? n (skipWhite rest)
    match skipWhite rest with
    | 0x7D :: rest => some ([(key, value)], rest)
    | 0x2C :: rest =>
      let (members, rest) ← members? n rest
      some ((key, value) :: members, rest)
    | _ => none

end

def statement? (text : Text) : Option (Statement × Text) :=
  match text with
  | 0x5B :: 0x5B :: rest => do
    let (key, rest) ← key? (rest.length + 1) rest
    let rest ← expect? ']' rest
    let rest ← expect? ']' rest
    some (.tableItem key, rest)
  | 0x5B :: rest => do
    let (key, rest) ← key? (rest.length + 1) rest
    let rest ← expect? ']' rest
    some (.table key, rest)
  | text => do
    let (key, rest) ← key? (text.length + 1) text
    let rest ← expect? '=' rest
    let (value, rest) ← value? (rest.length + 1) (skipWhite rest)
    some (.assign key value, rest)

/-- Reads statements to the end; each has its line to itself. -/
def statements? : Nat → Text → Option (List Statement)
  | 0, _ => none
  | n + 1, text =>
    match skipGap text.length text with
    | [] => some []
    | text => do
      let (statement, rest) ← statement? text
      let rest := skipComment (skipWhite rest)
      if (rest.head?.map isBreak).getD true then
        let others ← statements? n rest
        some (statement :: others)
      else none

/-- Whether the bytes are well-formed text without replacement characters and without control
characters other than tabs and line breaks. -/
def isReadable (text : Text) : Bool :=
  (Utf8.chars text).all (fun c =>
    c != Utf8.replacement && (0x20 ≤ c.toNat || c == '\t' || c == '\n' || c == '\r') &&
      c.toNat != 0x7F) && returnsOk text
where
  returnsOk : Text → Bool
    | [] => true
    | [byte] => byte != 0x0D
    | byte :: next :: rest => (byte != 0x0D || next == 0x0A) && returnsOk (next :: rest)

def dropMark (text : Text) : Text :=
  match text with
  | 0xEF :: 0xBB :: 0xBF :: rest => rest
  | 0xFF :: 0xFE :: rest => rest
  | 0xFE :: 0xFF :: rest => rest
  | text => text

def read? (text : Text) : Option (List Statement) :=
  let text := dropMark text
  if isReadable text then statements? (text.length + 1) text else none

end HdlAlign.Toml
