import HdlAlign.Decimal.Shortest
import HdlAlign.Text.Utf8

namespace HdlAlign

/-- A JSON document whose objects keep the order of their members. -/
inductive Json where
  | null
  | bool (value : Bool)
  | integer (value : Int)
  | double (value : Double)
  | string (value : Text)
  | array (items : List Json)
  | object (members : List (Text × Json))

namespace Json

/-- A character inside a string.  Angle brackets, ampersands and the two line separators are
escaped too, so that the text may stand in other formats. -/
def escapeChar (c : Char) : Text :=
  match c.toNat with
  | 0x22 => "\\\""
  | 0x5C => "\\\\"
  | 0x08 => "\\b"
  | 0x0C => "\\f"
  | 0x0A => "\\n"
  | 0x0D => "\\r"
  | 0x09 => "\\t"
  | 0x3C => "\\u003c"
  | 0x3E => "\\u003e"
  | 0x26 => "\\u0026"
  | 0x2028 => "\\u2028"
  | 0x2029 => "\\u2029"
  | code =>
    if code < 0x20 then "\\u00" ++ Text.fillLeft 0x30 2 (Text.hexDigits code)
    else Utf8.encodeChar c

/-- A string between quotes; every ill-formed byte becomes a replacement character. -/
def quoted (text : Text) : Text :=
  "\"" ++ (Utf8.chars text).flatMap escapeChar ++ "\""

/-- Doubles are positional from a millionth up to 10^21 and exponential elsewhere. -/
def doubleText (d : Double) : Text :=
  let s := Decimal.shortest d
  let power := s.exponent + (Text.decimal s.digits).length
  let text := if d.isZero || (-6 < power && power ≤ 21) then s.positional else s.exponential
  if d.negative then "-" ++ text else text

def boolText (b : Bool) : Text := if b then "true" else "false"

def comma : Text := ","

mutual

def compact : Json → Text
  | null => "null"
  | bool value => boolText value
  | integer value => Text.decimalInt value
  | double value => doubleText value
  | string value => quoted value
  | array items => "[" ++ Text.join comma (compactItems items) ++ "]"
  | object members => "\x7b" ++ Text.join comma (compactMembers members) ++ "\x7d"

def compactItems : List Json → List Text
  | [] => []
  | item :: rest => compact item :: compactItems rest

def compactMembers : List (Text × Json) → List Text
  | [] => []
  | (name, value) :: rest => (quoted name ++ ":" ++ compact value) :: compactMembers rest

end

/-- The items of a container, one on a line, two blanks deeper than the brackets. -/
def bracketed (opening closing : Text) (depth : Nat) (items : List Text) : Text :=
  if items.isEmpty then opening ++ closing
  else
    let margin := Text.newline :: Text.blanks (2 * depth + 2)
    opening ++ margin ++ Text.join (comma ++ margin) items ++
      (Text.newline :: Text.blanks (2 * depth)) ++ closing

mutual

def indented (depth : Nat) : Json → Text
  | null => "null"
  | bool value => boolText value
  | integer value => Text.decimalInt value
  | double value => doubleText value
  | string value => quoted value
  | array items => bracketed "[" "]" depth (indentedItems (depth + 1) items)
  | object members => bracketed "\x7b" "\x7d" depth (indentedMembers (depth + 1) members)

def indentedItems (depth : Nat) : List Json → List Text
  | [] => []
  | item :: rest => indented depth item :: indentedItems depth rest

def indentedMembers (depth : Nat) : List (Text × Json) → List Text
  | [] => []
  | (name, value) :: rest =>
    (quoted name ++ ": " ++ indented depth value) :: indentedMembers depth rest

end

def member? (name : String) (value : Option Json) : List (Text × Json) :=
  match value with
  | none => []
  | some value => [(Text.ofString name, value)]

def member (name : String) (value : Json) : List (Text × Json) := [(Text.ofString name, value)]

def listMember (name : String) (items : List Json) : List (Text × Json) :=
  if items.isEmpty then [] else [(Text.ofString name, array items)]

def textMember (name : String) (text : Text) : List (Text × Json) :=
  if text.isEmpty then [] else [(Text.ofString name, string text)]

def numberMember (name : String) (n : Int) : List (Text × Json) :=
  if n = 0 then [] else [(Text.ofString name, integer n)]

end Json

end HdlAlign
