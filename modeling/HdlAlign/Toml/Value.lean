import HdlAlign.Text.Utf8

/-! Statements of TOML, the format of settings files. -/

namespace HdlAlign.Toml

abbrev Key := List Text

/-- A value.  Numbers and dates keep only their kind, since no setting takes one. -/
inductive Value where
  | boolean (value : Bool)
  | text (value : Text)
  | number
  | date
  | array (items : List Value)
  | inline (members : List (Key × Value))

inductive Statement where
  | table (key : Key)
  | tableItem (key : Key)
  | assign (key : Key) (value : Value)

def isBare (byte : UInt8) : Bool :=
  Text.isLetter byte || Text.isDigit byte || byte == '_' || byte == '-'

def keyEscape (byte : UInt8) : Text :=
  match byte.toNat with
  | 0x22 => "\\\""
  | 0x5C => "\\\\"
  | 0x08 => "\\b"
  | 0x09 => "\\t"
  | 0x0A => "\\n"
  | 0x0C => "\\f"
  | 0x0D => "\\r"
  | code =>
    if code < 0x20 || code = 0x7F then "\\u" ++ Text.fillLeft 0x30 4 (Text.hexDigits code)
    else [byte]

def partText (part : Text) : Text :=
  if !part.isEmpty && part.all isBare then part else "\"" ++ part.flatMap keyEscape ++ "\""

def Key.toText (key : Key) : Text := Text.join "." (key.map partText)

end HdlAlign.Toml
