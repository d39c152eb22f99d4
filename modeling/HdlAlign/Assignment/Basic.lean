import HdlAlign.Text.Blank

namespace HdlAlign

/-- An assignment: its operator, its right-hand side in normal form, and whether a semicolon
ends it. -/
structure Assignment where
  operator : Text
  value : Text
  terminated : Bool
  deriving DecidableEq

namespace Assignment

def isArith (byte : UInt8) : Bool := byte == '-' || byte == '+' || byte == '*'

def spaceArith : Text → Text
  | [] => []
  | [a] => if isArith a || a == '/' then [Text.blank, a, Text.blank] else [a]
  | a :: b :: rest =>
    if isArith a then
      if isArith b then Text.blank :: a :: b :: Text.blank :: spaceArith rest
      else Text.blank :: a :: Text.blank :: spaceArith (b :: rest)
    else if a == '/' then Text.blank :: a :: Text.blank :: spaceArith (b :: rest)
    else a :: spaceArith (b :: rest)

/-- One blank around arithmetic operators and after commas, and no longer run of blanks. -/
def spaceOperators (text : Text) : Text :=
  Text.trim (Text.collapseSpaces (Text.spaceCommas false (spaceArith text)))

def isOperatorByte (byte : UInt8) : Bool :=
  byte == '-' || byte == '+' || byte == '*' || byte == '/' || byte == '%' ||
  byte == '&' || byte == '|' || byte == '^'

def operator? : Text → Option (Text × Text)
  | a :: b :: c :: rest =>
    if ((a == '<' && b == '<') || (a == '>' && b == '>')) && c == '=' then some ([a, b, c], rest)
    else if (a == '<' || isOperatorByte a) && b == '=' then some ([a, b], c :: rest)
    else if a == '=' then some ([a], b :: c :: rest)
    else none
  | [a, b] =>
    if (a == '<' || isOperatorByte a) && b == '=' then some ([a, b], [])
    else if a == '=' then some ([a], [b])
    else none
  | [a] => if a == '=' then some ([a], []) else none
  | [] => none

def splitTerminator (field : Text) : Bool × Text :=
  match Text.dropTail? (Text.ofString ";") (Text.trim field) with
  | some body => (true, Text.trim body)
  | none => (false, Text.trim field)

def parse? (field : Text) : Option Assignment :=
  let (terminated, body) := splitTerminator field
  (operator? body).map fun (operator, value) => ⟨operator, spaceOperators value, terminated⟩

end Assignment

end HdlAlign
