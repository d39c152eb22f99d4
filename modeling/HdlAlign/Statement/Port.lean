import HdlAlign.Statement.Declaration

/-! Entries of a port list. -/

namespace HdlAlign.Statement

open Pattern

def directionWords : List Text := Text.literals ["input", "output", "inout"]

def direction : Pattern := spaces >> keyword directionWords >> spaces

def portType : Pattern :=
  spaces >> ((keyword typeWords >> optional sign) <|> keyword signWords) >> spaces

def identifier : Pattern :=
  one (fun byte => Text.isLetter byte || byte == '_') >>
    run (fun byte => Text.isWord byte || byte == '$')

def identifierList : Pattern :=
  identifier >> many (spaces >> literal "," >> spaces >> identifier) >> atEnd

structure Port where
  direction : Text
  type : Text
  vector : Text
  name : Text
  comment : Text
  deriving DecidableEq

namespace Port

def extract (line : Text) : Port :=
  let (comment, rest) := cutFirst Statement.comment line
  let (direction, rest) := cutFront Statement.direction rest
  let (type, rest) := cutFront portType rest
  let (vector, rest) := cutFront Statement.vector rest
  let (name, _) := cutFront toLineEnd rest
  { direction := Text.normalize direction
    type := Text.normalize type
    vector := Text.normalize vector
    name := Text.normalizeList (Text.normalize name)
    comment }

def found (p : Port) : List Text :=
  [p.comment, p.direction, p.type, p.vector, p.name]

/-- The parts in the order in which they are laid out, behind a column for separators. -/
def columns (p : Port) : List Text :=
  [[], p.direction, p.type, p.vector, p.name, p.comment]

def vectorColumn : Nat := 3

/-- Whether trimmed code without its comment is a port entry.  A bare list of identifiers goes on
with the direction before it. -/
def isStatement (code : Text) : Bool :=
  (keyword directionWords).matchesFront code || identifierList.matchesFront code

end Port

end HdlAlign.Statement
