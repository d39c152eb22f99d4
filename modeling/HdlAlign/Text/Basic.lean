namespace HdlAlign

/-- Text is a sequence of bytes.  Offsets, lengths and slices count bytes, and
nothing assumes that the bytes are well-formed UTF-8. -/
abbrev Text := List UInt8

instance charToByte : Coe Char UInt8 := ⟨Char.toUInt8⟩

namespace Text

def ofString (s : String) : Text :=
  s.toList.flatMap String.utf8EncodeChar

instance stringToText : Coe String Text := ⟨ofString⟩

def literals (strings : List String) : List Text := strings.map ofString

def newline : UInt8 := 0x0A

def blank : UInt8 := 0x20

def blanks (n : Nat) : Text := List.replicate n blank

def decimal (n : Nat) : Text :=
  (Nat.toDigits 10 n).map Char.toUInt8

def decimalInt (n : Int) : Text :=
  if n < 0 then ofString "-" ++ decimal n.natAbs else decimal n.natAbs

def hexDigits (n : Nat) : Text :=
  (Nat.toDigits 16 n).map Char.toUInt8

def hex (text : Text) : Text :=
  text.flatMap fun byte => hexDigits (byte.toNat / 16) ++ hexDigits (byte.toNat % 16)

/-- Right-aligns a text with a fill byte; longer texts are kept whole. -/
def fillLeft (fill : UInt8) (width : Nat) (text : Text) : Text :=
  List.replicate (width - text.length) fill ++ text

def fillRight (fill : UInt8) (width : Nat) (text : Text) : Text :=
  text ++ List.replicate (width - text.length) fill

/-! Splitting and joining. -/

/-- Cuts at every occurrence of the separator; there is always at least one piece. -/
def splitOn (sep : UInt8) : Text → List Text
  | [] => [[]]
  | byte :: rest =>
    if byte = sep then [] :: splitOn sep rest
    else match splitOn sep rest with
      | [] => [[byte]]
      | piece :: others => (byte :: piece) :: others

def join (sep : Text) (pieces : List Text) : Text :=
  sep.intercalate pieces

def lines (text : Text) : List Text := splitOn newline text

def unlines (pieces : List Text) : Text := join [newline] pieces

@[simp] theorem splitOn_nil (sep : UInt8) : splitOn sep [] = [[]] := rfl

theorem splitOn_ne_nil (sep : UInt8) (text : Text) : splitOn sep text ≠ [] := by
  cases text with
  | nil => simp
  | cons byte rest =>
    rw [splitOn]
    split
    · simp
    · split <;> simp

/-! Affixes.  Each `drop` answers with nothing when the affix is absent. -/

def startsWith (text affix : Text) : Bool := affix.isPrefixOf text

def endsWith (text affix : Text) : Bool := affix.isSuffixOf text

def dropHead? : (affix text : Text) → Option Text
  | [], text => some text
  | _ :: _, [] => none
  | a :: affix, b :: text => if a = b then dropHead? affix text else none

def dropTail? (affix text : Text) : Option Text :=
  (dropHead? affix.reverse text.reverse).map List.reverse

def trimHead (affix text : Text) : Text := (dropHead? affix text).getD text

def trimTail (affix text : Text) : Text := (dropTail? affix text).getD text

def dropTailWhile (p : UInt8 → Bool) (text : Text) : Text :=
  (text.reverse.dropWhile p).reverse

/-! Searching. -/

/-- Cuts before the leftmost suffix that satisfies the predicate. -/
def breakBefore? (p : Text → Bool) : Text → Option (Text × Text)
  | [] => if p [] then some ([], []) else none
  | byte :: rest =>
    if p (byte :: rest) then some ([], byte :: rest)
    else (breakBefore? p rest).map fun (before, after) => (byte :: before, after)

def breakOn? (part text : Text) : Option (Text × Text) :=
  breakBefore? (·.startsWith part) text

def containsText (part text : Text) : Bool := (breakOn? part text).isSome

def afterLast (byte : UInt8) (text : Text) : Text :=
  (text.reverse.takeWhile (· != byte)).reverse

def beforeLast? (byte : UInt8) (text : Text) : Option Text :=
  match text.reverse.dropWhile (· != byte) with
  | [] => none
  | _ :: before => some before.reverse

def lt : Text → Text → Bool
  | _, [] => false
  | [], _ :: _ => true
  | a :: s, b :: t => a < b || (a == b && lt s t)

def le (s t : Text) : Bool := !lt t s

def compare : Text → Text → Ordering
  | [], [] => .eq
  | [], _ :: _ => .lt
  | _ :: _, [] => .gt
  | a :: s, b :: t => if a < b then .lt else if b < a then .gt else compare s t

/-! Byte classes of ASCII. -/

def isDigit (byte : UInt8) : Bool := 0x30 ≤ byte && byte ≤ 0x39

def isUpper (byte : UInt8) : Bool := 0x41 ≤ byte && byte ≤ 0x5A

def isLower (byte : UInt8) : Bool := 0x61 ≤ byte && byte ≤ 0x7A

def isLetter (byte : UInt8) : Bool := isUpper byte || isLower byte

def isWord (byte : UInt8) : Bool := isLetter byte || isDigit byte || byte == 0x5F

def isAscii (byte : UInt8) : Bool := byte < 0x80

def lowerAscii (byte : UInt8) : UInt8 := if isUpper byte then byte + 0x20 else byte

end Text

end HdlAlign
