import HdlAlign.Text.Basic

/-! Decimal integers of 64 bits, as users write them. -/

namespace HdlAlign.Numeral

inductive Fault where
  | malformed
  | outOfRange
  deriving DecidableEq

def Fault.message : Fault → Text
  | malformed => "invalid syntax"
  | outOfRange => "value out of range"

def digits (value : Nat) : Text → Except Fault Nat
  | [] => .ok value
  | byte :: rest =>
    if Text.isDigit byte then
      let value := value * 10 + (byte.toNat - 48)
      if 0x10000000000000000 ≤ value then .error .outOfRange else digits value rest
    else .error .malformed

def magnitude (text : Text) : Except Fault Nat :=
  if text.isEmpty then .error .malformed else digits 0 text

def integer : Text → Except Fault Int
  | [] => .error .malformed
  | byte :: rest =>
    if byte = '-' then
      match magnitude rest with
      | .error fault => .error fault
      | .ok n => if n ≤ 0x8000000000000000 then .ok (-n) else .error .outOfRange
    else
      match magnitude (if byte = '+' then rest else byte :: rest) with
      | .error fault => .error fault
      | .ok n => if n < 0x8000000000000000 then .ok n else .error .outOfRange

end HdlAlign.Numeral
