import HdlAlign.Text.Utf8
import HdlAlign.Unicode.Printable

/-! Double-quoted text: printable characters stand for themselves, all else is escaped. -/

namespace HdlAlign.Text

def hexPadded (count n : Nat) : Text := fillLeft 0x30 count (hexDigits n)

def letterEscape? (code : Nat) : Option Text :=
  match code with
  | 0x07 => some "\\a"
  | 0x08 => some "\\b"
  | 0x09 => some "\\t"
  | 0x0A => some "\\n"
  | 0x0B => some "\\v"
  | 0x0C => some "\\f"
  | 0x0D => some "\\r"
  | 0x22 => some "\\\""
  | 0x5C => some "\\\\"
  | _ => none

def quoteScalar (scalar : Utf8.Scalar) : Text :=
  let code := scalar.char.toNat
  if scalar.isIllFormed then "\\x" ++ hex scalar.bytes
  else match letterEscape? code with
    | some escape => escape
    | none =>
      if Unicode.isPrintable code then scalar.bytes
      else if code < 0x20 || code = 0x7F then "\\x" ++ hexPadded 2 code
      else if code < 0x10000 then "\\u" ++ hexPadded 4 code
      else "\\U" ++ hexPadded 8 code

def quote (text : Text) : Text :=
  "\"" ++ (Utf8.scalars text).flatMap quoteScalar ++ "\""

end HdlAlign.Text
