import HdlAlign.Text.Basic

/-! Terminal colours -/

namespace HdlAlign.Style

def escape : Text := [0x1B] ++ Text.ofString "["

def bold : Nat := 1

def codes (attributes : List Nat) : Text := Text.join ";" (attributes.map Text.decimal)

def paint (enabled : Bool) (attributes : List Nat) (text : Text) : Text :=
  if enabled then
    escape ++ codes attributes ++ "m" ++ text ++ escape ++
      codes (attributes.map fun a => if a = bold then 22 else 0) ++ "m"
  else text

def red : Nat := 31

def green : Nat := 32

def yellow : Nat := 33

def blue : Nat := 34

def cyan : Nat := 36

def white : Nat := 37

end HdlAlign.Style
