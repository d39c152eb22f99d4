import HdlAlign.Text.Pattern

/-! Declarations and assignments.  A line is taken apart by patterns that run in a fixed order,
each on what the ones before it left. -/

namespace HdlAlign.Statement

open Pattern

def typeWords : List Text :=
  Text.literals ["reg", "wire", "logic", "integer", "bit", "byte", "shortint", "int", "longint",
    "time", "shortreal", "real", "double", "realtime"]

def assignWord : Text := "assign"

def signWords : List Text := Text.literals ["signed", "unsigned"]

def controlWords : List Text :=
  Text.literals ["if", "else", "for", "foreach", "while", "do", "repeat", "forever", "case",
    "casex", "casez", "endcase", "always", "always_ff", "always_comb", "always_latch", "initial",
    "final", "begin", "end", "fork", "join", "join_any", "join_none", "module", "macromodule",
    "endmodule", "function", "endfunction", "task", "endtask", "generate", "endgenerate",
    "return", "default", "package", "endpackage", "interface", "endinterface"]

def comment : Pattern := literal "//" >> toLineEnd

def sign : Pattern := spaces1 >> keyword signWords

def declarationType : Pattern :=
  spaces >> keyword (typeWords ++ [assignWord]) >> optional sign >> spaces

def isIndexByte (byte : UInt8) : Bool := byte != '[' && byte != ']' && byte != ':'

/-- One bracket pair with a colon inside, and the blanks behind it. -/
def dimension : Pattern :=
  literal "[" >> run isIndexByte >> literal ":" >> run isIndexByte >> literal "]" >> spaces

def array : Pattern := many1 dimension

def vector : Pattern := spaces >> array

def compoundOperator : Pattern :=
  literal "<<" <|> literal ">>" <|>
    one fun byte => byte == '-' || byte == '+' || byte == '*' || byte == '/' || byte == '%' ||
      byte == '&' || byte == '|' || byte == '^'

/-- An assignment to the end of its line, or the semicolon that ends the text. -/
def assignment : Pattern :=
  (literal "<=" >> toLineEnd) <|>
    (compoundOperator >> literal "=" >> toLineEnd) <|>
    (literal "=" >> toLineEnd) <|>
    (literal ";" >> spaces >> atEnd)

structure Declaration where
  type : Text
  vector : Text
  name : Text
  array : Text
  assignment : Text
  comment : Text
  deriving DecidableEq

namespace Declaration

def isStorage (type : Text) : Bool := !type.isEmpty && type != assignWord

def cutIf (condition : Bool) (cut : Text → Text × Text) (text : Text) : Text × Text :=
  if condition then cut text else ([], text)

def extract (line : Text) : Declaration :=
  let (comment, rest) := cutFirst Statement.comment line
  let (type, rest) := cutFront declarationType rest
  let type := Text.normalize type
  let (assignment, rest) := cutFirst Statement.assignment rest
  let (vector, rest) := cutIf (isStorage type) (cutFront Statement.vector) rest
  let (array, rest) := cutIf (isStorage type) (cutFirst Statement.array) rest
  let (name, _) := cutFront toLineEnd rest
  { type
    vector := Text.normalize vector
    name := Text.normalizeList (Text.normalize name)
    array := Text.normalize array
    assignment := Text.normalize assignment
    comment }

def found (d : Declaration) : List Text :=
  [d.comment, d.type, d.assignment, d.vector, d.array, d.name]

def columns (d : Declaration) : List Text :=
  [d.type, d.vector, d.name, d.array, d.assignment, d.comment]

def vectorColumn : Nat := 1

def arrayColumn : Nat := 3

def assignmentColumn : Nat := 4

/-- Compiler directives, block comments and control words begin no declaration. -/
def isForeign (code : Text) : Bool :=
  code.startsWith [0x60] || code.startsWith "/*" || code.startsWith "*" ||
    (keyword controlWords).matchesFront code

/-- Whether trimmed code without its comment is a declaration or an assignment. -/
def isStatement (code : Text) : Bool :=
  !code.isEmpty && !isForeign code && List.count (';' : UInt8) code ≤ 1 &&
    ((keyword (typeWords ++ [assignWord])).matchesFront code || code.contains '=')

end Declaration

end HdlAlign.Statement
