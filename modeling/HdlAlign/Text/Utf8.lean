import HdlAlign.Text.Basic

namespace HdlAlign.Utf8

/-- One character read from a text, with the bytes it was read from.  A byte that does not
belong to a well-formed sequence is read alone, as the replacement character. -/
structure Scalar where
  char : Char
  bytes : Text
  deriving DecidableEq

def replacement : Char := Char.ofNat 0xFFFD

def isContinuation (byte : UInt8) : Bool := 0x80 ≤ byte && byte ≤ 0xBF

/-- The least and greatest second byte that may follow a leading byte. -/
def secondBounds (lead : UInt8) : UInt8 × UInt8 :=
  if lead = 0xE0 then (0xA0, 0xBF)
  else if lead = 0xED then (0x80, 0x9F)
  else if lead = 0xF0 then (0x90, 0xBF)
  else if lead = 0xF4 then (0x80, 0x8F)
  else (0x80, 0xBF)

def isSecond (lead byte : UInt8) : Bool :=
  (secondBounds lead).1 ≤ byte && byte ≤ (secondBounds lead).2

/-- The number of bytes that a leading byte announces, 0 if it cannot lead. -/
def announced (lead : UInt8) : Nat :=
  if lead < 0x80 then 1
  else if lead < 0xC2 then 0
  else if lead < 0xE0 then 2
  else if lead < 0xF0 then 3
  else if lead < 0xF5 then 4
  else 0

def payload (byte : UInt8) (bits : Nat) : Nat := byte.toNat % Nat.pow 2 bits

def code2 (a b : UInt8) : Nat := payload a 5 * 64 + payload b 6

def code3 (a b c : UInt8) : Nat := payload a 4 * 4096 + payload b 6 * 64 + payload c 6

def code4 (a b c d : UInt8) : Nat :=
  payload a 3 * 262144 + payload b 6 * 4096 + payload c 6 * 64 + payload d 6

def illFormed (byte : UInt8) : Scalar := ⟨replacement, [byte]⟩

def Scalar.isIllFormed (scalar : Scalar) : Bool :=
  scalar.bytes.length == 1 && scalar.char == replacement

def scalars : Text → List Scalar
  | [] => []
  | a :: rest =>
    match announced a with
    | 1 => ⟨Char.ofNat a.toNat, [a]⟩ :: scalars rest
    | 2 =>
      match rest with
      | b :: tail =>
        if isContinuation b then ⟨Char.ofNat (code2 a b), [a, b]⟩ :: scalars tail
        else illFormed a :: scalars (b :: tail)
      | [] => [illFormed a]
    | 3 =>
      match rest with
      | b :: c :: tail =>
        if isSecond a b && isContinuation c then
          ⟨Char.ofNat (code3 a b c), [a, b, c]⟩ :: scalars tail
        else illFormed a :: scalars (b :: c :: tail)
      | rest => illFormed a :: scalars rest
    | 4 =>
      match rest with
      | b :: c :: d :: tail =>
        if isSecond a b && isContinuation c && isContinuation d then
          ⟨Char.ofNat (code4 a b c d), [a, b, c, d]⟩ :: scalars tail
        else illFormed a :: scalars (b :: c :: d :: tail)
      | rest => illFormed a :: scalars rest
    | _ => illFormed a :: scalars rest

def chars (text : Text) : List Char := (scalars text).map Scalar.char

def isValid (text : Text) : Bool := (scalars text).all (!·.isIllFormed)

def encodeChar (c : Char) : Text := String.utf8EncodeChar c

def encode (cs : List Char) : Text := cs.flatMap encodeChar

/-- Replaces every ill-formed byte by the replacement character. -/
def sanitize (text : Text) : Text := encode (chars text)

def toString? (text : Text) : Option String :=
  if isValid text then some (String.ofList (chars text)) else none

end HdlAlign.Utf8
